import Doors.Mailbox

/-! The keyboard driver: `keyboard.c` over the scancodes of its port. A program that asks for
the buffer gets what stands on the keys, with the shift keys and the caps lock as they were. -/

namespace Doors.Keyboard

open Mailbox

def chars (s : String) : List UInt8 := s.toList.map Char.toUInt8

abbrev extScancodeUp : UInt8 := 0x48

abbrev extScancodeDown : UInt8 := 0x50

abbrev extScancodeLeft : UInt8 := 0x4B

abbrev extScancodeRight : UInt8 := 0x4D

abbrev arrowUp : UInt8 := 0x11

abbrev arrowLeft : UInt8 := 0x12

abbrev arrowDown : UInt8 := 0x13

abbrev arrowRight : UInt8 := 0x14

/-- The 256 entries of the table; all behind the last key are 0. -/
def keyboardScancode1ToAsciiMap (scancode : UInt8) : UInt8 :=
  ([0, 0x1B] ++ chars "1234567890-=" ++ [0x08, 0x09] ++ chars "qwertyuiop[]" ++ [0x0A, 0] ++
    chars "asdfghjkl;'`" ++ [0] ++ chars "\\zxcvbnm,./" ++ [0] ++ chars "*" ++ [0] ++
    chars " " ++ List.replicate 16 0 ++ chars "-" ++ List.replicate 3 0 ++ chars "+").getD
      scancode.toNat 0

/-- 97 entries, for the characters below `a`. -/
def shiftMap : List UInt8 :=
  List.replicate 39 0 ++ chars "\"" ++ List.replicate 4 0 ++ chars "<_>?)!@#$%^&*(" ++ [0] ++
    chars ":" ++ [0] ++ chars "+" ++ List.replicate 29 0 ++ [0x7B, 0x7C, 0x7D, 0, 0] ++ chars "~"

structure KeyboardDriverState where
  keyboardInputOn : Bool
  capslock : Bool
  leftShift : Bool
  rightShift : Bool
  keyboardBuffer : UInt8
  deriving DecidableEq

namespace KeyboardDriverState

def boot : KeyboardDriverState := ⟨false, false, false, false, 0⟩

variable (k : KeyboardDriverState)

def activate : KeyboardDriverState :=
  { k with keyboardInputOn := true, capslock := false, leftShift := false, rightShift := false }

def deactivate : KeyboardDriverState := { k with keyboardInputOn := false }

def getKeyboardBuffer : UInt8 × KeyboardDriverState :=
  (k.keyboardBuffer, { k with keyboardBuffer := 0 })

def isShift : Bool := k.leftShift || k.rightShift

end KeyboardDriverState

/-- The character of a key that is neither a lock, a shift key nor an arrow. -/
def mappedAscii (capslock isShift : Bool) (scancode : UInt8) : UInt8 :=
  let mapped := keyboardScancode1ToAsciiMap scancode
  if (capslock ^^ isShift) ∧ 97 ≤ mapped ∧ mapped ≤ 122 then mapped - 32
  else if isShift ∧ mapped < 97 ∧ shiftMap.getD mapped.toNat 0 ≠ 0 then
    shiftMap.getD mapped.toNat 0
  else mapped

/-- `keyboard_isr` for the scancode read from the port. -/
def keyboardIsr (k : KeyboardDriverState) (scancode : UInt8) : KeyboardDriverState :=
  if k.keyboardInputOn then
    if scancode &&& 0x80 = 0 then
      if scancode = 0x3A then { k with capslock := !k.capslock }
      else if scancode = 0x2A then { k with leftShift := true }
      else if scancode = 0x36 then { k with rightShift := true }
      else if scancode = extScancodeUp then { k with keyboardBuffer := arrowUp }
      else if scancode = extScancodeLeft then { k with keyboardBuffer := arrowLeft }
      else if scancode = extScancodeDown then { k with keyboardBuffer := arrowDown }
      else if scancode = extScancodeRight then { k with keyboardBuffer := arrowRight }
      else { k with keyboardBuffer := mappedAscii k.capslock k.isShift scancode }
    else if scancode = 0xAA then { k with leftShift := false }
    else if scancode = 0xB6 then { k with rightShift := false }
    else k
  else k

inductive KeyboardEvent
  | interrupt (scancode : UInt8)
  | getBuffer
  | activate
  | deactivate

def KeyboardDriverState.step (k : KeyboardDriverState) : KeyboardEvent → KeyboardDriverState
  | .interrupt scancode => keyboardIsr k scancode
  | .getBuffer => k.getKeyboardBuffer.2
  | .activate => k.activate
  | .deactivate => k.deactivate

def polled : KeyboardDriverState → List KeyboardEvent → List UInt8
  | _, [] => []
  | k, .getBuffer :: es => k.getKeyboardBuffer.1 :: polled k.getKeyboardBuffer.2 es
  | k, e :: es => polled (k.step e) es

/-! The keyboard itself, by its keycaps and by what was pressed. -/

structure Keycap where
  scancode : UInt8
  plain : UInt8
  shifted : UInt8
  deriving DecidableEq

/-- Keys side by side have successive scancodes. -/
def row (first : UInt8) (plain shifted : String) : List Keycap :=
  ((chars plain).zip (chars shifted)).mapIdx fun k c => ⟨first + UInt8.ofNat k, c.1, c.2⟩

def unshifted (scancode c : UInt8) : Keycap := ⟨scancode, c, c⟩

def layout : List Keycap :=
  row 0x02 "1234567890-=" "!@#$%^&*()_+" ++ row 0x10 "qwertyuiop[]" "QWERTYUIOP\x7b\x7d" ++
    row 0x1E "asdfghjkl;'`" "ASDFGHJKL:\"~" ++ row 0x2B "\\zxcvbnm,./" "|ZXCVBNM<>?" ++
    row 0x4A "-" "_" ++
    [unshifted 0x39 0x20, unshifted 0x0E 0x08, unshifted 0x0F 0x09, unshifted 0x1C 0x0A,
      unshifted 0x01 0x1B, unshifted 0x37 0x2A, unshifted 0x4E 0x2B, unshifted 0x48 arrowUp,
      unshifted 0x4B arrowLeft, unshifted 0x50 arrowDown, unshifted 0x4D arrowRight]

/-- The caps lock counts for letters only. -/
def Keycap.legend (caps shift : Bool) (key : Keycap) : UInt8 :=
  if (if 97 ≤ key.plain ∧ key.plain ≤ 122 then caps ^^ shift else shift) then key.shifted
  else key.plain

def pressed (caps shift : Bool) (scancode : UInt8) : Option UInt8 :=
  (layout.find? fun key => key.scancode = scancode).map (·.legend caps shift)

/-- The press of a key that is neither the lock nor a shift key. -/
def IsKey (scancode : UInt8) : Prop :=
  scancode &&& 0x80 = 0 ∧ scancode ≠ 0x3A ∧ scancode ≠ 0x2A ∧ scancode ≠ 0x36

instance (scancode : UInt8) : Decidable (IsKey scancode) := inferInstanceAs (Decidable (_ ∧ _))

/-- Of the two scancodes the one of the press came last. -/
def held (press release : UInt8) (codes : List UInt8) : Bool :=
  (codes.filter fun b => b = press ∨ b = release).getLast? = some press

def shiftDown (codes : List UInt8) : Bool := held 0x2A 0xAA codes || held 0x36 0xB6 codes

def capsOn (codes : List UInt8) : Bool := codes.count 0x3A % 2 = 1

def logStep (log : Option (List UInt8)) : KeyboardEvent → Option (List UInt8)
  | .interrupt scancode => log.map (· ++ [scancode])
  | .getBuffer => log
  | .activate => some []
  | .deactivate => none

/-- A key without a character empties the buffer. -/
def keyAccess (log : List UInt8) (scancode : UInt8) : List (Access UInt8) :=
  if IsKey scancode then [.set (pressed (capsOn log) (shiftDown log) scancode)] else []

def access (log : Option (List UInt8)) : KeyboardEvent → List (Access UInt8)
  | .interrupt scancode => log.elim [] (keyAccess · scancode)
  | .getBuffer => [.take]
  | .activate | .deactivate => []

def accesses : Option (List UInt8) → List KeyboardEvent → List (Access UInt8)
  | _, [] => []
  | log, e :: es => access log e ++ accesses (logStep log e) es

section Layout

variable {key : Keycap} {b c : UInt8} {caps shift : Bool}

theorem legend_eq (caps shift : Bool) (key : Keycap) :
    key.legend caps shift = key.plain ∨ key.legend caps shift = key.shifted := by
  unfold Keycap.legend
  split_ifs <;> simp

/-- With a shift key the key gives its other character. -/
theorem legend_shift (h : key.legend caps false ≠ c) (hc : key.plain = c ∨ key.shifted = c) :
    key.legend caps true = c := by
  unfold Keycap.legend at h ⊢
  cases caps <;> split_ifs at h ⊢ <;> simp_all

theorem layout_mapped : ∀ key ∈ layout,
    key.scancode ∉ [extScancodeUp, extScancodeLeft, extScancodeDown, extScancodeRight] →
      ∀ caps shift, mappedAscii caps shift key.scancode = key.legend caps shift := by
  decide +kernel

theorem unmapped : ∀ n < 128, (∀ key ∈ layout, key.scancode ≠ UInt8.ofNat n) →
    keyboardScancode1ToAsciiMap (UInt8.ofNat n) = 0 := by
  decide +kernel

theorem layout_chars : ∀ key ∈ layout, key.plain ≠ 0 ∧ key.shifted ≠ 0 := by
  decide +kernel

/-- No two keys have one scancode, and none has one of a lock, a shift key or a release. -/
theorem layout_keys : ∀ key ∈ layout,
    layout.find? (fun other => other.scancode = key.scancode) = some key ∧ IsKey key.scancode ∧
      ¬ IsKey (key.scancode ||| 0x80) ∧
        key.scancode ||| 0x80 ∉ [0x2A, 0x36, 0xAA, 0xB6, 0x3A] ∧
          key.scancode ∉ [0xAA, 0xB6] := by
  decide +kernel

theorem pressed_mem (h : pressed caps shift b = some c) :
    ∃ key ∈ layout, key.scancode = b ∧ key.legend caps shift = c := by
  obtain ⟨key, hfind, hc⟩ := Option.map_eq_some_iff.mp h
  exact ⟨key, List.mem_of_find?_eq_some hfind, by simpa using List.find?_some hfind, hc⟩

theorem pressed_layout (h : key ∈ layout) :
    pressed caps shift key.scancode = some (key.legend caps shift) :=
  congrArg (Option.map _) (layout_keys key h).1

theorem pressed_ne_zero : pressed caps shift b ≠ some 0 := by
  intro h
  obtain ⟨key, hkey, -, hc⟩ := pressed_mem h
  obtain ⟨hplain, hshifted⟩ := layout_chars key hkey
  rcases legend_eq caps shift key with he | he
  · exact hplain (he.symm.trans hc)
  · exact hshifted (he.symm.trans hc)

theorem mappedAscii_unmapped (h : keyboardScancode1ToAsciiMap b = 0) :
    mappedAscii caps shift b = 0 := by
  have hzero : shiftMap.getD (0 : UInt8).toNat 0 = 0 := by decide
  rw [mappedAscii, h, if_neg (by simp), if_neg fun hs => hs.2.2 hzero]

theorem toNat_of_press (h : b &&& 0x80 = 0) : b.toNat < 128 := by
  have hbits : ∀ n < 256, n &&& 128 = 0 → n < 128 := by decide +kernel
  exact hbits b.toNat b.toNat_lt (congrArg UInt8.toNat h)

theorem mappedAscii_eq (hb : b &&& 0x80 = 0)
    (harrow : b ∉ [extScancodeUp, extScancodeLeft, extScancodeDown, extScancodeRight]) :
    mappedAscii caps shift b = (pressed caps shift b).getD 0 := by
  cases hp : pressed caps shift b with
  | some c =>
    obtain ⟨key, hkey, rfl, hc⟩ := pressed_mem hp
    exact (layout_mapped key hkey harrow caps shift).trans hc
  | none =>
    apply mappedAscii_unmapped
    have hne : ∀ key ∈ layout, key.scancode ≠ UInt8.ofNat b.toNat := by
      intro key hkey he
      rw [UInt8.ofNat_toNat] at he
      simp [← he, pressed_layout hkey] at hp
    simpa using unmapped b.toNat (toNat_of_press hb) hne

end Layout

section History

variable {codes : List UInt8} {press release b : UInt8}

theorem held_append : held press release (codes ++ [b]) =
    if b = press then true else if b = release then false else held press release codes := by
  unfold held
  split_ifs with hp hr
  · simp [hp]
  · subst hr
    simp [hp]
  · simp [hp, hr]

theorem capsOn_append :
    capsOn (codes ++ [b]) = if b = 0x3A then !capsOn codes else capsOn codes := by
  unfold capsOn
  split_ifs with hb
  · subst hb
    rw [List.count_append, List.count_singleton_self]
    by_cases h : codes.count 0x3A % 2 = 1
    · have hnext : (codes.count 0x3A + 1) % 2 ≠ 1 := by omega
      simp [h, hnext]
    · have hnext : (codes.count 0x3A + 1) % 2 = 1 := by omega
      simp [h, hnext]
  · simp [List.count_append, hb]

end History

section Isr

/-- The driver is on, and its flags are what was pressed. -/
structure Tracks (k : KeyboardDriverState) (log : List UInt8) : Prop where
  on : k.keyboardInputOn = true
  caps : k.capslock = capsOn log
  left : k.leftShift = held 0x2A 0xAA log
  right : k.rightShift = held 0x36 0xB6 log

def Follows (k : KeyboardDriverState) (log : Option (List UInt8)) : Prop :=
  log.elim (k.keyboardInputOn = false) (Tracks k)

variable {k : KeyboardDriverState} {b : UInt8} {log : List UInt8}

def KeyboardDriverState.slot (k : KeyboardDriverState) : Option UInt8 :=
  if k.keyboardBuffer = 0 then none else some k.keyboardBuffer

theorem slot_getD (k : KeyboardDriverState) : k.slot.getD 0 = k.keyboardBuffer := by
  unfold KeyboardDriverState.slot
  split_ifs with h <;> simp [h]

theorem Tracks.shift (h : Tracks k log) : k.isShift = shiftDown log := by
  rw [KeyboardDriverState.isShift, h.left, h.right, shiftDown]

theorem isr_key (hon : k.keyboardInputOn = true) (hb : IsKey b) : keyboardIsr k b =
    { k with keyboardBuffer := (pressed k.capslock k.isShift b).getD 0 } := by
  obtain ⟨hpress, hcaps, hleft, hright⟩ := hb
  have harrow {b c : UInt8} (h : unshifted b c ∈ layout) (caps shift : Bool) :
      (pressed caps shift b).getD 0 = c := by
    rw [show b = (unshifted b c).scancode from rfl, pressed_layout h]
    exact ite_self c
  unfold keyboardIsr
  rw [if_pos hon, if_pos hpress, if_neg hcaps, if_neg hleft, if_neg hright]
  split_ifs with hup hl hd hr
  · rw [hup, harrow (c := arrowUp) (by decide)]
  · rw [hl, harrow (c := arrowLeft) (by decide)]
  · rw [hd, harrow (c := arrowDown) (by decide)]
  · rw [hr, harrow (c := arrowRight) (by decide)]
  · rw [mappedAscii_eq hpress (by simp [hup, hl, hd, hr])]

theorem isr_other (hb : ¬ IsKey b) : (keyboardIsr k b).keyboardBuffer = k.keyboardBuffer := by
  unfold keyboardIsr
  by_cases hpress : b &&& 0x80 = 0
  · rw [if_pos hpress]
    split_ifs with hon hcaps hleft hright <;> try rfl
    all_goals exact absurd ⟨hpress, hcaps, hleft, hright⟩ hb
  · rw [if_neg hpress]
    split_ifs <;> rfl

theorem press_ne (h : b &&& 0x80 = 0) : b ≠ 0xAA ∧ b ≠ 0xB6 := by
  constructor <;> rintro rfl <;> exact absurd h (by decide)

theorem release_ne (h : b &&& 0x80 ≠ 0) : b ≠ 0x3A ∧ b ≠ 0x2A ∧ b ≠ 0x36 := by
  refine ⟨?_, ?_, ?_⟩ <;> rintro rfl <;> exact absurd (by decide) h

theorem Tracks.keep (h : Tracks k log) (c : UInt8)
    (hb : b ∉ [0x3A, 0x2A, 0xAA, 0x36, 0xB6]) :
    Tracks { k with keyboardBuffer := c } (log ++ [b]) := by
  simp only [List.mem_cons, List.not_mem_nil, or_false, not_or] at hb
  obtain ⟨hcaps, hleft, hleftUp, hright, hrightUp⟩ := hb
  refine ⟨h.on, ?_, ?_, ?_⟩
  · rw [capsOn_append, if_neg hcaps, ← h.caps]
  · rw [held_append, if_neg hleft, if_neg hleftUp, ← h.left]
  · rw [held_append, if_neg hright, if_neg hrightUp, ← h.right]

theorem Tracks.capslock (h : Tracks k log) :
    Tracks { k with capslock := !k.capslock } (log ++ [0x3A]) :=
  ⟨h.on, by simp [capsOn_append, h.caps], by simp [held_append, h.left],
    by simp [held_append, h.right]⟩

theorem Tracks.leftShift (h : Tracks k log) (hb : b = 0x2A ∨ b = 0xAA) :
    Tracks { k with leftShift := b = 0x2A } (log ++ [b]) := by
  rcases hb with rfl | rfl <;>
    exact ⟨h.on, by simp [capsOn_append, h.caps], by simp [held_append],
      by simp [held_append, h.right]⟩

theorem Tracks.rightShift (h : Tracks k log) (hb : b = 0x36 ∨ b = 0xB6) :
    Tracks { k with rightShift := b = 0x36 } (log ++ [b]) := by
  rcases hb with rfl | rfl <;>
    exact ⟨h.on, by simp [capsOn_append, h.caps], by simp [held_append, h.left],
      by simp [held_append]⟩

theorem Tracks.isr (h : Tracks k log) (b : UInt8) : Tracks (keyboardIsr k b) (log ++ [b]) := by
  have hon := h.on
  unfold keyboardIsr
  rw [if_pos hon]
  by_cases hb : b &&& 0x80 = 0
  · obtain ⟨hA, hB⟩ := press_ne hb
    rw [if_pos hb]
    split_ifs with hcaps hleft hright hup hl hd hr
    · exact hcaps ▸ h.capslock
    · simpa [hleft] using h.leftShift (.inl hleft)
    · simpa [hright] using h.rightShift (.inl hright)
    all_goals exact h.keep _ (by simp [hcaps, hleft, hright, hA, hB])
  · obtain ⟨hcaps, hleft, hright⟩ := release_ne hb
    rw [if_neg hb]
    split_ifs with hleftUp hrightUp
    · simpa [hleftUp] using h.leftShift (.inr hleftUp)
    · simpa [hrightUp] using h.rightShift (.inr hrightUp)
    · exact h.keep k.keyboardBuffer (by simp [hcaps, hleft, hright, hleftUp, hrightUp])

theorem keyAccess_slot (h : Tracks k log) (b : UInt8) (as : List (Access UInt8)) :
    taken k.slot (keyAccess log b ++ as) = taken (keyboardIsr k b).slot as := by
  unfold keyAccess
  split_ifs with hb
  · have hslot : (keyboardIsr k b).slot = pressed k.capslock k.isShift b := by
      rw [isr_key h.on hb]
      unfold KeyboardDriverState.slot
      cases hp : pressed k.capslock k.isShift b with
      | none => simp
      | some c => simpa using fun hc : c = 0 => pressed_ne_zero (hc ▸ hp)
    rw [hslot, h.caps, h.shift]
    rfl
  · rw [List.nil_append, KeyboardDriverState.slot, KeyboardDriverState.slot, isr_other hb]

end Isr

section Polls

variable {k : KeyboardDriverState} {log : Option (List UInt8)} {es : List KeyboardEvent}

theorem Follows.step (h : Follows k log) (e : KeyboardEvent) :
    Follows (k.step e) (logStep log e) := by
  cases e with
  | activate => exact ⟨rfl, rfl, rfl, rfl⟩
  | deactivate => rfl
  | getBuffer =>
    cases log with
    | none => exact h
    | some log => exact ⟨h.on, h.caps, h.left, h.right⟩
  | interrupt b =>
    cases log with
    | none =>
      have hoff : k.keyboardInputOn = false := h
      simp [KeyboardDriverState.step, keyboardIsr, hoff, logStep, Follows]
    | some log => exact Tracks.isr h b

/-- The driver is a register for what its keys give. -/
theorem polled_eq (h : Follows k log) :
    polled k es = (taken k.slot (accesses log es)).map (·.getD 0) := by
  induction es generalizing k log with
  | nil => rfl
  | cons e es ih =>
    have hrest := ih (h.step e)
    cases e with
    | getBuffer =>
      rw [polled, accesses, access, List.singleton_append, taken, List.map_cons, slot_getD]
      exact congrArg _ hrest
    | activate => exact hrest
    | deactivate => exact hrest
    | interrupt b =>
      refine hrest.trans (congrArg _ ?_)
      cases log with
      | none =>
        have hoff : k.keyboardInputOn = false := h
        simp [KeyboardDriverState.step, keyboardIsr, hoff, accesses, access]
      | some log => exact (keyAccess_slot h b _).symm

theorem given_append {α : Type} (as bs : List (Access α)) :
    given (as ++ bs) = given as ++ given bs := by
  induction as with
  | nil => rfl
  | cons a as ih => cases a <;> simp [given, ih]

theorem keyAccess_nonzero (log : List UInt8) (b : UInt8) : 0 ∉ given (keyAccess log b) := by
  unfold keyAccess
  split_ifs
  · simpa [given] using pressed_ne_zero
  · simp [given]

theorem accesses_nonzero (log : Option (List UInt8)) (es : List KeyboardEvent) :
    0 ∉ given (accesses log es) := by
  induction es generalizing log with
  | nil => simp [accesses, given]
  | cons e es ih =>
    rw [accesses, given_append, List.mem_append, not_or]
    refine ⟨?_, ih _⟩
    cases e with
    | interrupt b => cases log <;> simp [access, given, keyAccess_nonzero]
    | _ => simp [access, given]

theorem filter_getD {as : List (Option UInt8)} (h : 0 ∉ as.reduceOption) :
    (as.map (·.getD 0)).filter (· ≠ 0) = as.reduceOption := by
  induction as with
  | nil => rfl
  | cons a as ih =>
    cases a with
    | none => simpa using ih h
    | some c =>
      rw [List.reduceOption_cons_of_some, List.mem_cons, not_or] at h
      simpa [Ne.symm h.1] using ih h.2

def presses (es : List KeyboardEvent) : List UInt8 := given (accesses none es)

/-- Each character is taken before the next key, and the last one is taken too. -/
def KeepsUp (es : List KeyboardEvent) : Prop := Served none (accesses none es)

/-- Whatever the order of interrupts and polls, a poll gets the latest key that no poll got,
no key arrives twice or out of order, and all do exactly when each key is polled before the next one
is pressed, the last key too. -/
theorem polls_deliver (es : List KeyboardEvent) :
    polled .boot es = (taken none (accesses none es)).map (·.getD 0) ∧
      ((polled .boot es).filter (· ≠ 0)).Sublist (presses es) ∧
      ((polled .boot es).filter (· ≠ 0) = presses es ↔ KeepsUp es) := by
  have hpolled : polled .boot es = (taken none (accesses none es)).map (·.getD 0) :=
    polled_eq (show Follows .boot none from rfl)
  have hsub := taken_sublist none (accesses none es)
  have hzero : 0 ∉ (taken none (accesses none es)).reduceOption := fun h =>
    accesses_nonzero none es (hsub.subset h)
  have hdelivered : (polled .boot es).filter (· ≠ 0) =
      (taken none (accesses none es)).reduceOption := by
    rw [hpolled, filter_getD hzero]
  refine ⟨hpolled, ?_, ?_⟩
  · exact hdelivered ▸ hsub
  · rw [hdelivered]
    exact taken_eq_iff

end Polls

/-! Typing a text: which scancodes give it. -/

def Typeable (c : UInt8) : Prop :=
  (0x20 ≤ c ∧ c ≤ 0x7E) ∨ c ∈ [0x08, 0x09, 0x0A, 0x1B, arrowUp, arrowLeft, arrowDown, arrowRight]

instance (c : UInt8) : Decidable (Typeable c) := inferInstanceAs (Decidable (_ ∨ _))

def keyFor (c : UInt8) : Option Keycap := layout.find? fun key => key.plain = c ∨ key.shifted = c

/-- The key is pressed and let go, inside a press of the left shift key where it needs one. -/
def strokes (caps : Bool) (c : UInt8) : List UInt8 :=
  (keyFor c).elim [] fun key =>
    if key.legend caps false = c then [key.scancode, key.scancode ||| 0x80]
    else [0x2A, key.scancode, key.scancode ||| 0x80, 0xAA]

def codes (es : List KeyboardEvent) : List UInt8 :=
  es.filterMap fun | .interrupt b => some b | _ => none

def Undisturbed (es : List KeyboardEvent) : Prop := ∀ e ∈ es, e ≠ .activate ∧ e ≠ .deactivate

def typed : List UInt8 → List UInt8 → List UInt8
  | _, [] => []
  | log, b :: bs => given (keyAccess log b) ++ typed (log ++ [b]) bs

section Text

variable {log bs cs : List UInt8} {key : Keycap} {c : UInt8} {es : List KeyboardEvent}

theorem typed_append (log bs cs : List UInt8) :
    typed log (bs ++ cs) = typed log bs ++ typed (log ++ bs) cs := by
  induction bs generalizing log with
  | nil => simp [typed]
  | cons b bs ih => simp [typed, ih]

theorem given_accesses (h : Undisturbed es) :
    given (accesses (some log) es) = typed log (codes es) := by
  induction es generalizing log with
  | nil => rfl
  | cons e es ih =>
    have hes : Undisturbed es := fun e' he' => h e' (List.mem_cons_of_mem _ he')
    cases e with
    | interrupt b =>
      rw [accesses, given_append]
      exact congrArg _ (ih hes)
    | getBuffer => exact ih hes
    | activate => exact absurd rfl (h _ List.mem_cons_self).1
    | deactivate => exact absurd rfl (h _ List.mem_cons_self).2

theorem keyFor_typeable : ∀ n < 128, Typeable (UInt8.ofNat n) →
    (keyFor (UInt8.ofNat n)).isSome = true := by
  decide +kernel

theorem Typeable.exists_key (h : Typeable c) :
    ∃ key ∈ layout, keyFor c = some key ∧ (key.plain = c ∨ key.shifted = c) := by
  have hlt : c.toNat < 128 := by
    rcases h with h | h
    · have hle := UInt8.le_iff_toNat_le.mp h.2
      exact Nat.lt_of_le_of_lt hle (by decide)
    · simp only [List.mem_cons, List.not_mem_nil, or_false] at h
      rcases h with rfl | rfl | rfl | rfl | rfl | rfl | rfl | rfl <;> decide
  have hsome := keyFor_typeable c.toNat hlt (by simpa using h)
  rw [UInt8.ofNat_toNat, Option.isSome_iff_exists] at hsome
  obtain ⟨key, hkey⟩ := hsome
  exact ⟨key, List.mem_of_find?_eq_some hkey, hkey, by simpa using List.find?_some hkey⟩

theorem keyAccess_key (hkey : key ∈ layout) :
    given (keyAccess log key.scancode) = [key.legend (capsOn log) (shiftDown log)] := by
  rw [keyAccess, if_pos (layout_keys key hkey).2.1, pressed_layout hkey]
  rfl

theorem keyAccess_none {b : UInt8} (hb : ¬ IsKey b) : given (keyAccess log b) = [] := by
  rw [keyAccess, if_neg hb]
  rfl

/-- A key or its release changes neither the shift keys nor the lock. -/
theorem held_key (log : List UInt8) (hkey : key ∈ layout) {b : UInt8}
    (hb : b = key.scancode ∨ b = key.scancode ||| 0x80) :
    held 0x2A 0xAA (log ++ [b]) = held 0x2A 0xAA log ∧
      held 0x36 0xB6 (log ++ [b]) = held 0x36 0xB6 log ∧ capsOn (log ++ [b]) = capsOn log := by
  obtain ⟨-, ⟨-, hcaps, hleft, hright⟩, -, hup, hdown⟩ := layout_keys key hkey
  rcases hb with rfl | rfl
  all_goals
    simp only [List.mem_cons, List.not_mem_nil, or_false, not_or] at hup hdown
    simp [held_append, capsOn_append, *]

theorem shiftDown_key (hkey : key ∈ layout) {b : UInt8}
    (hb : b = key.scancode ∨ b = key.scancode ||| 0x80) :
    shiftDown (log ++ [b]) = shiftDown log := by
  obtain ⟨hleft, hright, -⟩ := held_key log hkey hb
  rw [shiftDown, hleft, hright, shiftDown]

theorem shifted_stroke (log : List UInt8) (hkey : key ∈ layout) (hshift : shiftDown log = false) :
    let bs := [0x2A, key.scancode, key.scancode ||| 0x80, 0xAA]
    typed log bs = [key.legend (capsOn log) true] ∧ shiftDown (log ++ bs) = false ∧
      capsOn (log ++ bs) = capsOn log := by
  have hup := (layout_keys key hkey).2.2.1
  have hright : held 0x36 0xB6 log = false := (Bool.or_eq_false_iff.mp hshift).2
  have hdown : shiftDown (log ++ [0x2A]) = true := by simp [shiftDown, held_append]
  have hlock : capsOn (log ++ [0x2A]) = capsOn log := by simp [capsOn_append]
  obtain ⟨-, hr1, hc1⟩ := held_key (log ++ [0x2A]) hkey (.inl rfl)
  obtain ⟨-, hr2, hc2⟩ := held_key (log ++ [0x2A] ++ [key.scancode]) hkey (.inr rfl)
  have hbs : log ++ [0x2A, key.scancode, key.scancode ||| 0x80, 0xAA] =
      log ++ [0x2A] ++ [key.scancode] ++ [key.scancode ||| 0x80] ++ [0xAA] := by simp
  refine ⟨?_, ?_, ?_⟩
  · have hfirst : given (keyAccess log 0x2A) = [] := keyAccess_none (by decide)
    simp only [typed, hfirst, keyAccess_key hkey, keyAccess_none hup, hdown, hlock,
      keyAccess_none (show ¬ IsKey 0xAA by decide), List.append_nil, List.nil_append]
  · have hleftUp (l : List UInt8) : held 0x2A 0xAA (l ++ [0xAA]) = false := by simp [held_append]
    have hrightUp (l : List UInt8) : held 0x36 0xB6 (l ++ [0xAA]) = held 0x36 0xB6 l := by
      simp [held_append]
    have hpress : held 0x36 0xB6 (log ++ [0x2A]) = held 0x36 0xB6 log := by simp [held_append]
    rw [hbs, shiftDown, hleftUp, hrightUp, hr2, hr1, hpress, hright]
    rfl
  · rw [hbs, capsOn_append, if_neg (by decide), hc2, hc1, hlock]

/-- The strokes of a character give it, and hold nothing afterwards. -/
theorem strokes_typed (hc : Typeable c) (hshift : shiftDown log = false) :
    typed log (strokes (capsOn log) c) = [c] ∧
      shiftDown (log ++ strokes (capsOn log) c) = false ∧
      capsOn (log ++ strokes (capsOn log) c) = capsOn log := by
  obtain ⟨key, hkey, hfor, hchar⟩ := hc.exists_key
  have hup := (layout_keys key hkey).2.2.1
  rw [strokes, hfor, Option.elim_some]
  split_ifs with hplain
  · have hbs : log ++ [key.scancode, key.scancode ||| 0x80] =
        log ++ [key.scancode] ++ [key.scancode ||| 0x80] := by simp
    refine ⟨?_, ?_, ?_⟩
    · simp only [typed, keyAccess_key hkey, keyAccess_none hup, hshift, hplain, List.append_nil]
    · rw [hbs, shiftDown_key hkey (.inr rfl), shiftDown_key hkey (.inl rfl), hshift]
    · rw [hbs, (held_key _ hkey (.inr rfl)).2.2, (held_key _ hkey (.inl rfl)).2.2]
  · obtain ⟨hgiven, hrest⟩ := shifted_stroke log hkey hshift
    exact ⟨hgiven.trans (congrArg (fun b => [b]) (legend_shift hplain hchar)), hrest⟩

theorem text_typed {text : List UInt8} (htext : ∀ c ∈ text, Typeable c)
    (hshift : shiftDown log = false) :
    typed log (text.flatMap (strokes (capsOn log))) = text ∧
      shiftDown (log ++ text.flatMap (strokes (capsOn log))) = false ∧
      capsOn (log ++ text.flatMap (strokes (capsOn log))) = capsOn log := by
  -- The strokes of the rest depend on the lock, which those of a character leave as it was.
  induction text generalizing log with
  | nil => simpa [typed] using hshift
  | cons c text ih =>
    obtain ⟨hc, hs, hl⟩ := strokes_typed (htext c List.mem_cons_self) hshift
    obtain ⟨htyped, hshift', hlock⟩ := ih (fun d hd => htext d (List.mem_cons_of_mem _ hd)) hs
    rw [hl] at htyped hshift' hlock
    rw [List.flatMap_cons, typed_append, hc, htyped, ← List.append_assoc]
    exact ⟨rfl, hshift', hlock⟩

theorem delivered_served {k : KeyboardDriverState} (hk : Tracks k log)
    (hempty : k.keyboardBuffer = 0) (hes : Undisturbed es)
    (hserved : Served none (accesses (some log) es)) :
    (polled k es).filter (· ≠ 0) = typed log (codes es) := by
  have hslot : k.slot = none := if_pos hempty
  have htaken := taken_served hserved
  have hzero : 0 ∉ (taken none (accesses (some log) es)).reduceOption := by
    rw [htaken]
    exact accesses_nonzero (some log) es
  rw [polled_eq (show Follows k (some log) from hk), hslot, filter_getD hzero, htaken,
    given_accesses hes]
  rfl

/-- Every text of the keyboard arrives as it is, whatever else is polled, when each of its
characters is taken before the next key; it can be typed with the caps lock on or off. -/
theorem text_arrives {k : KeyboardDriverState} (hk : Tracks k log) (hempty : k.keyboardBuffer = 0)
    (hshift : k.isShift = false) {text : List UInt8} (htext : ∀ c ∈ text, Typeable c)
    (hes : Undisturbed es) (hcodes : codes es = text.flatMap (strokes k.capslock))
    (hserved : Served none (accesses (some log) es)) : (polled k es).filter (· ≠ 0) = text := by
  have hdown : shiftDown log = false := hk.shift ▸ hshift
  rw [delivered_served hk hempty hes hserved, hcodes, hk.caps]
  exact (text_typed htext hdown).1

/-- "A" and a newline, with idle polls. -/
theorem text_arrives_line : (polled KeyboardDriverState.boot.activate [.interrupt 0x2A,
    .interrupt 0x1E, .getBuffer, .interrupt 0x9E, .getBuffer, .interrupt 0xAA, .interrupt 0x1C,
    .interrupt 0x9C, .getBuffer]).filter (· ≠ 0) = [65, 10] :=
  text_arrives (show Tracks _ [] from ⟨rfl, rfl, rfl, rfl⟩) rfl rfl (by decide +kernel)
    (by simp [Undisturbed]) (by decide +kernel) (by decide +kernel)

end Text

end Doors.Keyboard
