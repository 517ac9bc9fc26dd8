import Doors.Cmos
import Doors.Itoa
import Doors.Run
import Doors.ScreenSharing

/-! The program `clock`, which shares the screen with the shell. It writes the time of day into the
last eight columns, one system call for each character. -/

namespace Doors.Clock

open Cmos Calendar CString Decimal Console

def framebufferWrite (s : Console) (row col c fg bg : UInt8) : Console :=
  let attr := bg <<< 4 ||| fg
  (s.setVideo (row.toNat * 160 + col.toNat * 2) c).setVideo
    (row.toNat * 160 + col.toNat * 2 + 1) attr

/-- A call of `put_char_position`; the kernel takes the low bytes. -/
structure PutCharPosition where
  row : UInt32
  col : UInt32
  c : UInt8

def PutCharPosition.run (s : Console) (p : PutCharPosition) : Console :=
  framebufferWrite s p.row.toUInt8 p.col.toUInt8 p.c 0xA 0

/-- The strings of `main`, of ten bytes each. -/
structure Texts where
  syear : Nat → UInt8
  smonth : Nat → UInt8
  sday : Nat → UInt8
  shour : Nat → UInt8
  sminute : Nat → UInt8
  ssecond : Nat → UInt8

/-- The first calls for a field: two characters, with a zero in front of a single digit. -/
def putField (col : UInt32) (field : UInt16) (text : Nat → UInt8) : List PutCharPosition :=
  if field < 10 then [⟨24, col, '0'.toUInt8⟩, ⟨24, col + 1, text 0⟩]
  else [⟨24, col, text 0⟩, ⟨24, col + 1, text 1⟩]

/-- A pass of the loop up to its output, and the calls it goes on to make. -/
def pass (t : RtcTime) (texts : Texts) : Except Undefined (Texts × List PutCharPosition) := do
  let hour := UInt16.ofNat ((t.hour.toNat + 7) % 24)
  let syear ← itoa 10 (Int32.ofNat t.year.toNat) texts.syear
  let smonth ← itoa 10 (Int32.ofNat t.month.toNat) texts.smonth
  let sday ← itoa 10 (Int32.ofNat t.day.toNat) texts.sday
  let shour ← itoa 10 (Int32.ofNat hour.toNat) texts.shour
  let sminute ← itoa 10 (Int32.ofNat t.minute.toNat) texts.sminute
  let ssecond ← itoa 10 (Int32.ofNat t.second.toNat) texts.ssecond
  .ok (⟨syear, smonth, sday, shour, sminute, ssecond⟩,
    putField 72 hour shour ++ [⟨24, 74, ':'.toUInt8⟩] ++
    putField 75 t.minute sminute ++ [⟨24, 77, ':'.toUInt8⟩] ++
    putField 78 t.second ssecond)

structure ClockState where
  texts : Texts
  pending : List PutCharPosition

inductive ScreenEvent
  | console (call : ConsoleCall)
  | readRtc (cmos : Registers)
  | put

inductive ScreenStep : Console × ClockState → ScreenEvent → Console × ClockState → Prop
  | console {s : Console} {k : ClockState} (call : ConsoleCall) :
    ScreenStep (s, k) (.console call) (call.run s, k)
  | readRtc {s : Console} {texts texts' : Texts} {cmos : Registers} {t : RtcTime}
    {puts : List PutCharPosition} : readRtc cmos = some t → pass t texts = .ok (texts', puts) →
    ScreenStep (s, ⟨texts, []⟩) (.readRtc cmos) (s, ⟨texts', puts⟩)
  | put {s : Console} {texts : Texts} {p : PutCharPosition} {ps : List PutCharPosition} :
    ScreenStep (s, ⟨texts, p :: ps⟩) .put (p.run s, ⟨texts, ps⟩)

/-- The bytes of the last eight columns of the last row. -/
def clockCells : Set Int := {p | 24 * 160 + 72 * 2 ≤ p ∧ p < 24 * 160 + 80 * 2}

def InCells (p : PutCharPosition) : Prop :=
  p.row.toUInt8 = 24 ∧ 72 ≤ p.col.toUInt8.toNat ∧ p.col.toUInt8.toNat < 80

def consoleCalls (es : List ScreenEvent) : List ConsoleCall :=
  es.filterMap fun
    | .console call => some call
    | _ => none

section Sharing

variable {s s' t : Console} {k k' : ClockState} {es : List ScreenEvent} {p : PutCharPosition}

theorem putField_inCells {col : UInt32} (hcol : col = 72 ∨ col = 75 ∨ col = 78) (field : UInt16)
    (text : Nat → UInt8) : ∀ p ∈ putField col field text, InCells p := by
  rw [putField]
  rcases hcol with rfl | rfl | rfl <;> split_ifs <;> simp [InCells]

theorem pass_ok (r : RtcTime) (texts : Texts) : ∃ texts' : Texts,
    pass r texts = .ok (texts', putField 72 (UInt16.ofNat ((r.hour.toNat + 7) % 24)) texts'.shour ++
      [⟨24, 74, ':'.toUInt8⟩] ++ putField 75 r.minute texts'.sminute ++
      [⟨24, 77, ':'.toUInt8⟩] ++ putField 78 r.second texts'.ssecond) ∧
    Holds texts'.shour (numeral (UInt16.ofNat ((r.hour.toNat + 7) % 24)).toNat) ∧
    Holds texts'.sminute (numeral r.minute.toNat) ∧
    Holds texts'.ssecond (numeral r.second.toNat) := by
  obtain ⟨syear, hyear, -⟩ := @itoa_field texts.syear r.year
  obtain ⟨smonth, hmonth, -⟩ := @itoa_field texts.smonth r.month
  obtain ⟨sday, hday, -⟩ := @itoa_field texts.sday r.day
  obtain ⟨shour, hhour, hh⟩ := @itoa_field texts.shour (UInt16.ofNat ((r.hour.toNat + 7) % 24))
  obtain ⟨sminute, hminute, hm⟩ := @itoa_field texts.sminute r.minute
  obtain ⟨ssecond, hsecond, hs⟩ := @itoa_field texts.ssecond r.second
  refine ⟨⟨syear, smonth, sday, shour, sminute, ssecond⟩, ?_, hh, hm, hs⟩
  simp only [pass, hyear, hmonth, hday, hhour, hminute, hsecond]
  rfl

theorem pass_inCells {r : RtcTime} {texts texts' : Texts} {puts : List PutCharPosition}
    (h : pass r texts = .ok (texts', puts)) : ∀ p ∈ puts, InCells p := by
  obtain ⟨texts'', hpass, -⟩ := pass_ok r texts
  obtain ⟨-, rfl⟩ := Prod.mk.inj (Except.ok.inj (h.symm.trans hpass))
  have hcolon : InCells ⟨24, 74, ':'.toUInt8⟩ ∧ InCells ⟨24, 77, ':'.toUInt8⟩ := by simp [InCells]
  simp only [List.mem_append, List.mem_singleton]
  rintro p ((((hp | rfl) | hp) | rfl) | hp)
  · exact putField_inCells (.inl rfl) _ _ p hp
  · exact hcolon.1
  · exact putField_inCells (.inr (.inl rfl)) _ _ p hp
  · exact hcolon.2
  · exact putField_inCells (.inr (.inr rfl)) _ _ p hp

theorem Agrees.put (h : Agrees clockCells s t) (hp : InCells p) :
    Agrees clockCells s (p.run t) := by
  obtain ⟨hrow, hlo, hhi⟩ := hp
  have hrow' : p.row.toUInt8.toNat = 24 := by rw [hrow]; rfl
  have hcells : (p.row.toUInt8.toNat * 160 + p.col.toUInt8.toNat * 2 : Int) ∈ clockCells ∧
      (p.row.toUInt8.toNat * 160 + p.col.toUInt8.toNat * 2 + 1 : Int) ∈ clockCells := by
    simp only [clockCells, Set.mem_ofPred]
    omega
  exact (h.setVideo_left hcells.1 _).setVideo_left hcells.2 _

theorem agrees_run {x y : Console × ClockState} (h : Run ScreenStep x es y)
    (hx : ∀ p ∈ x.2.pending, InCells p) (hs : Agrees clockCells s x.1) :
    Agrees clockCells ((consoleCalls es).foldl ConsoleCall.run s) y.1 := by
  induction h generalizing s with
  | nil => exact hs
  | cons hstep _ ih =>
    cases hstep with
    | console call => exact ih hx (hs.call call)
    | readRtc _ hpass => exact ih (pass_inCells hpass) hs
    | put =>
      obtain ⟨hp, hps⟩ := List.forall_mem_cons.mp hx
      exact ih hps (Agrees.put hs hp)

/-- However the calls of the clock come between those of the other programs, the text and, outside
the cells of the clock, the screen are as they are without it. -/
theorem clock_transparent {texts : Texts} (h : Run ScreenStep (s, ⟨texts, []⟩) es (t, k)) :
    Agrees clockCells ((consoleCalls es).foldl ConsoleCall.run s) t :=
  agrees_run h (by simp) (.refl _ s)

end Sharing

def shownTime (hour minute second : Nat) : List UInt8 :=
  [digit (hour / 10), digit (hour % 10), ':'.toUInt8, digit (minute / 10), digit (minute % 10),
    ':'.toUInt8, digit (second / 10), digit (second % 10)]

section Display

variable {s : Console} {t : DateTime} {cmos : Registers}

theorem putField_eq {n : Nat} (hn : n < 100) (col : UInt32) {text : Nat → UInt8}
    (h : Holds text (numeral n)) : putField col (UInt16.ofNat n) text =
      [⟨24, col, digit (n / 10)⟩, ⟨24, col + 1, digit (n % 10)⟩] := by
  have hten : UInt16.ofNat n < 10 ↔ n < 10 := by
    rw [UInt16.lt_iff_toNat_lt, UInt16.toNat_ofNat_of_lt' (hn.trans (by decide))]
    rfl
  have hstep := numeral_step n
  rw [putField]
  by_cases hlt : n < 10
  · rw [if_pos (Nat.div_eq_of_lt hlt), List.nil_append] at hstep
    have h0 := h.begins 0 (by simp [hstep])
    rw [hstep] at h0
    rw [if_pos (hten.mpr hlt), h0, Nat.div_eq_of_lt hlt]
    rfl
  · have hdiv : n / 10 / 10 = 0 := by omega
    rw [if_neg (by omega), numeral_step (n / 10), if_pos hdiv, Nat.mod_eq_of_lt (by omega)] at hstep
    have h0 := h.begins 0 (by simp [hstep])
    have h1 := h.begins 1 (by simp [hstep])
    rw [hstep] at h0 h1
    rw [if_neg (mt hten.mp hlt), h0, h1]
    rfl

/-- A call changes its cell and no other of the row. -/
theorem put_cell {p : PutCharPosition} (hp : p.row.toUInt8 = 24) (s : Console) (j : Nat) :
    cellAt (p.run s).memory 24 j =
      if j = p.col.toUInt8.toNat then (p.c, 0x0A) else cellAt s.memory 24 j := by
  have hrow : p.row.toUInt8.toNat = 24 := by rw [hp]; rfl
  simp only [cellAt, videoPos, PutCharPosition.run, framebufferWrite, setVideo_memory, hrow]
  by_cases hj : j = p.col.toUInt8.toNat
  · simp [hj]
  · rw [if_neg hj, Function.update_of_ne (by omega), Function.update_of_ne (by omega),
      Function.update_of_ne (by omega), Function.update_of_ne (by omega)]

theorem puts_run (texts : Texts) (ps : List PutCharPosition) : Run ScreenStep (s, ⟨texts, ps⟩)
    (List.replicate ps.length .put) (ps.foldl PutCharPosition.run s, ⟨texts, []⟩) := by
  induction ps generalizing s with
  | nil => exact .nil _
  | cons p ps ih => exact .cons .put ih

def clockPuts (hour minute second : Nat) : List PutCharPosition :=
  ((shownTime hour minute second).zipIdx 72).map fun x => ⟨24, UInt32.ofNat x.2, x.1⟩

theorem clockPuts_run (hyear : 2024 ≤ t.year ∧ t.year ≤ 2123) (h : Encodes cmos t) (s : Console)
    (texts : Texts) : ∃ texts', Run ScreenStep (s, ⟨texts, []⟩)
      (.readRtc cmos :: List.replicate 8 .put)
      ((clockPuts ((readHour (cmos 0x0B) t.hour + 7) % 24) t.minute t.second).foldl
        PutCharPosition.run s, ⟨texts', []⟩) := by
  have hhour : readHour (cmos 0x0B) t.hour < 24 := by
    have := t.hour_lt
    rw [readHour]
    split_ifs <;> omega
  have hsmall {n : Nat} (hn : n < 100) : (UInt16.ofNat n).toNat = n :=
    UInt16.toNat_ofNat_of_lt' (hn.trans (by decide))
  obtain ⟨texts', hpass, hh, hm, hs⟩ :=
    pass_ok { rtcTime t with hour := UInt16.ofNat (readHour (cmos 0x0B) t.hour) } texts
  simp only [rtcTime] at hpass hh hm hs
  rw [hsmall (show readHour (cmos 0x0B) t.hour < 100 by omega)] at hpass hh
  rw [hsmall (by omega)] at hh
  rw [hsmall (by have := t.minute_lt; omega)] at hm
  rw [hsmall (by have := t.second_lt; omega)] at hs
  rw [putField_eq (by omega) _ hh, putField_eq (by have := t.minute_lt; omega) _ hm,
    putField_eq (by have := t.second_lt; omega) _ hs] at hpass
  exact ⟨texts', .cons (.readRtc (readRtc_eq hyear h) hpass) (puts_run texts' _)⟩

/-- A pass that nothing interrupts shows the time of day seven hours ahead of the clock's, and a
clock of 12 hours takes midnight and noon for each other. -/
theorem clock_shows (hyear : 2024 ≤ t.year ∧ t.year ≤ 2123) (h : Encodes cmos t) (s : Console)
    (texts : Texts) : ∃ s' texts', Run ScreenStep (s, ⟨texts, []⟩)
        (.readRtc cmos :: List.replicate 8 .put) (s', ⟨texts', []⟩) ∧
      (List.range 8).map (fun j => cellAt s'.memory 24 (72 + j)) =
        (shownTime ((readHour (cmos 0x0B) t.hour + 7) % 24) t.minute t.second).map (·, 0x0A) := by
  obtain ⟨texts', hrun⟩ := clockPuts_run hyear h s texts
  refine ⟨_, texts', hrun, ?_⟩
  simp [List.range_succ, put_cell, clockPuts, shownTime]

/-- Half past seven in the evening is half past two in the night on the screen. -/
theorem clock_shows_evening : ∃ (texts : Texts) (s' : Console) (texts' : Texts),
    Run ScreenStep (default, ⟨texts, []⟩)
      (.readRtc (registersOf 0 leapEvening) :: List.replicate 8 .put) (s', ⟨texts', []⟩) ∧
    (List.range 8).map (fun j => cellAt s'.memory 24 (72 + j)) =
      (shownTime 2 30 5).map (·, 0x0A) := by
  let zeros : Nat → UInt8 := fun _ => 0
  obtain ⟨s', texts', hrun, hcells⟩ := clock_shows (by decide)
    (registersOf_encodes 0 leapEvening) default ⟨zeros, zeros, zeros, zeros, zeros, zeros⟩
  exact ⟨_, s', texts', hrun, hcells⟩

/-- A character before a pass of the clock, and one behind it. -/
theorem clock_transparent_evening : ∃ (t : Console) (es : List ScreenEvent),
    consoleCalls es = [.putCharColor 65 0x0F, .putCharColor 66 0x0F] ∧
    Agrees clockCells ((consoleCalls es).foldl ConsoleCall.run default) t := by
  let zeros : Nat → UInt8 := fun _ => 0
  obtain ⟨texts', hrun⟩ := clockPuts_run (by decide) (registersOf_encodes 0 leapEvening)
    ((default : Console).putCharColor 65 0x0F) ⟨zeros, zeros, zeros, zeros, zeros, zeros⟩
  have hlast := hrun.snoc (.console (.putCharColor 66 0x0F))
  have hfirst : ScreenStep (default, _) (.console (.putCharColor 65 0x0F)) _ :=
    .console (k := ⟨⟨zeros, zeros, zeros, zeros, zeros, zeros⟩, []⟩) (.putCharColor 65 0x0F)
  have htransparent := clock_transparent (.cons hfirst hlast)
  exact ⟨_, _, by rfl, htransparent⟩

end Display

end Doors.Clock
