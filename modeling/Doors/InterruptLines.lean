import Doors.Run
import Mathlib.Algebra.GroupWithZero.Nat
import Mathlib.Logic.Function.Basic
import Mathlib.Data.List.FinRange

/-! The interrupt controllers under `interrupt.c`: two chips, the second one on line 2 of the first.
Lines may be raised at any time, also while the kernel sets the chips up or handles an interrupt. -/

namespace Doors.Pic

/-- What a chip takes the next byte at its data port for. -/
inductive Expects
  | icw2
  | icw3
  | icw4
  | mask
  deriving DecidableEq

structure Config where
  imr : UInt8
  offset : UInt8
  cascade : UInt8
  icw1 : UInt8
  autoEoi : Bool
  expects : Expects

scoped instance lines_neZero : NeZero 8 := ⟨by decide⟩

scoped instance irqs_neZero : NeZero 16 := ⟨by decide⟩

/-- `irr` has the lines that were raised, `isr` those that are handled. -/
structure Chip where
  config : Config
  irr : Fin 8 → Bool
  isr : Fin 8 → Bool

/-- Behind the second and the third byte of the initialization. -/
def Config.afterIcw3 (c : Config) : Expects := if c.icw1 &&& 0x01 ≠ 0 then .icw4 else .mask

def Config.afterIcw2 (c : Config) : Expects :=
  if c.icw1 &&& 0x02 = 0 then .icw3 else c.afterIcw3

def Config.data (c : Config) (v : UInt8) : Config :=
  match c.expects with
  | .icw2 => { c with offset := v &&& 0xF8, expects := c.afterIcw2 }
  | .icw3 => { c with cascade := v, expects := c.afterIcw3 }
  | .icw4 => { c with autoEoi := v &&& 0x02 ≠ 0, expects := .mask }
  | .mask => { c with imr := v }

/-- The first byte of the initialization clears the mask. -/
def Config.command (c : Config) (v : UInt8) : Config :=
  if v &&& 0x10 ≠ 0 then { c with imr := 0, icw1 := v, autoEoi := false, expects := .icw2 } else c

/-- The line of the highest priority among some. -/
def first (lines : Fin 8 → Bool) : Option (Fin 8) := (List.finRange 8).find? lines

def clearFirst (lines : Fin 8 → Bool) : Fin 8 → Bool :=
  match first lines with
  | some k => Function.update lines k false
  | none => lines

/-- An initialization forgets what was raised, an end of interrupt the handled line of the highest
priority. -/
def Chip.command (c : Chip) (v : UInt8) : Chip where
  config := c.config.command v
  irr := if v &&& 0x10 ≠ 0 then fun _ => false else c.irr
  isr := if v &&& 0xF8 = 0x20 then clearFirst c.isr else c.isr

def Chip.data (c : Chip) (v : UInt8) : Chip := { c with config := c.config.data v }

def Config.masks (c : Config) (k : Fin 8) : Bool := c.imr &&& (1 <<< UInt8.ofNat k) != 0

/-- The line that asks for the processor: not masked, and no line of its priority or a higher one
is handled. -/
def Chip.request (c : Chip) (lines : Fin 8 → Bool) : Option (Fin 8) :=
  first fun k => lines k && !c.config.masks k && decide (∀ j ≤ k, c.isr j = false)

def Chip.accept (c : Chip) (k : Fin 8) : Chip where
  config := c.config
  irr := Function.update c.irr k false
  isr := if c.config.autoEoi then c.isr else Function.update c.isr k true

structure Pics where
  pic1 : Chip
  pic2 : Chip

/-- The lines of the first chip, with what the second one asks for. -/
def Pics.lines (p : Pics) (k : Fin 8) : Bool :=
  if k = 2 then (p.pic2.request p.pic2.irr).isSome else p.pic1.irr k

/-- The vector that the processor is given, and the chips after that. -/
def Pics.acknowledge (p : Pics) : Option (UInt8 × Pics) := do
  let k ← p.pic1.request p.lines
  if p.pic1.config.cascade &&& (1 <<< UInt8.ofNat k) ≠ 0 then
    let j ← p.pic2.request p.pic2.irr
    some (p.pic2.config.offset + UInt8.ofNat j, ⟨p.pic1.accept k, p.pic2.accept j⟩)
  else some (p.pic1.config.offset + UInt8.ofNat k, { p with pic1 := p.pic1.accept k })

abbrev pic1Command : UInt8 := 0x20

abbrev pic1Data : UInt8 := 0x21

abbrev pic2Command : UInt8 := 0xA0

abbrev pic2Data : UInt8 := 0xA1

def Pics.out (p : Pics) (port v : UInt8) : Pics :=
  if port = pic1Command then { p with pic1 := p.pic1.command v }
  else if port = pic1Data then { p with pic1 := p.pic1.data v }
  else if port = pic2Command then { p with pic2 := p.pic2.command v }
  else if port = pic2Data then { p with pic2 := p.pic2.data v }
  else p

/-- Instructions of the kernel that matter to the chips. -/
inductive Instr
  | out (port v : UInt8)
  | unmask (irq : UInt8)
  | cli
  | sti

abbrev irqTimer : UInt8 := 0

abbrev irqKeyboard : UInt8 := 1

abbrev pic1Offset : UInt8 := 0x20

abbrev pic2Offset : UInt8 := 0x28

def picRemap : List Instr :=
  [.out pic1Command (0x10 ||| 0x01), .out pic2Command (0x10 ||| 0x01), .out pic1Data pic1Offset,
    .out pic2Data pic2Offset, .out pic1Data 0x04, .out pic2Data 0x02, .out pic1Data 0x01,
    .out pic2Data 0x01, .out pic1Data 0xFF, .out pic2Data 0xFF]

def activateKeyboardInterrupt : List Instr := [.unmask irqKeyboard]

def activateTimerInterrupt : List Instr := [.cli, .unmask irqTimer]

def picAck (irq : UInt8) : List Instr :=
  if irq ≥ 8 then [.out pic2Command 0x20, .out pic1Command 0x20] else [.out pic1Command 0x20]

/-- `kernel_setup`: `initialize_idt` turns interrupts on, and so does the first process. -/
def kernelSetup : List Instr :=
  picRemap ++ [.sti] ++ activateKeyboardInterrupt ++ activateTimerInterrupt ++ [.sti]

/-- What `main_interrupt_handler` tells the chips. -/
def mainInterruptHandler (intNumber : UInt8) : List Instr :=
  if intNumber = pic1Offset + irqKeyboard then picAck irqKeyboard
  else if intNumber = pic1Offset + irqTimer then picAck irqTimer
  else []

/-- The chips, the interrupt flag and what the kernel does next. -/
structure Cpu where
  pics : Pics
  enabled : Bool
  ops : List Instr

def Instr.run (i : Instr) (s : Cpu) : Cpu :=
  match i with
  | .out port v => { s with pics := s.pics.out port v }
  | .unmask irq =>
    { s with pics := s.pics.out pic1Data (s.pics.pic1.config.imr &&& ~~~(1 <<< irq)) }
  | .cli => { s with enabled := false }
  | .sti => { s with enabled := true }

inductive PicEvent
  | raise (irq : Fin 16)
  | instr
  | interrupt (vector : UInt8)
  | syscall

def Pics.raise (p : Pics) (irq : Fin 16) : Pics :=
  if h : irq.val < 8 then
    { p with pic1 := { p.pic1 with irr := Function.update p.pic1.irr ⟨irq, h⟩ true } }
  else { p with pic2 := { p.pic2 with
    irr := Function.update p.pic2.irr ⟨irq.val - 8, by omega⟩ true } }

/-- The gates turn interrupts off, the return from the handler turns them on. Programs call the
kernel only after the setup. -/
inductive PicStep : Cpu → PicEvent → Cpu → Prop
  | raise {s : Cpu} (irq : Fin 16) :
    PicStep s (.raise irq) { s with pics := s.pics.raise irq }
  | instr {s : Cpu} {i : Instr} {is : List Instr} : s.ops = i :: is →
    PicStep s .instr (i.run { s with ops := is })
  | interrupt {s : Cpu} {vector : UInt8} {pics : Pics} : s.enabled = true →
    s.pics.acknowledge = some (vector, pics) →
    PicStep s (.interrupt vector) ⟨pics, false, mainInterruptHandler vector ++ .sti :: s.ops⟩
  | syscall {s : Cpu} : s.ops = [] →
    PicStep s .syscall ⟨s.pics, false, mainInterruptHandler 0x30 ++ .sti :: s.ops⟩

def Pics.configs (p : Pics) : Config × Config := (p.pic1.config, p.pic2.config)

/-- What an instruction does to the settings, whatever is raised or handled. -/
def Instr.configs (c : Config × Config) : Instr → Config × Config
  | .out port v =>
    if port = pic1Command then (c.1.command v, c.2)
    else if port = pic1Data then (c.1.data v, c.2)
    else if port = pic2Command then (c.1, c.2.command v)
    else if port = pic2Data then (c.1, c.2.data v)
    else c
  | .unmask irq => (c.1.data (c.1.imr &&& ~~~(1 <<< irq)), c.2)
  | .cli => c
  | .sti => c

def Instr.flag (enabled : Bool) : Instr → Bool
  | .cli => false
  | .sti => true
  | _ => enabled

def configsAt (c : Config × Config) (n : Nat) : Config × Config :=
  (kernelSetup.take n).foldl Instr.configs c

def enabledAt (n : Nat) : Bool := (kernelSetup.take n).foldl Instr.flag false

def idle : Fin 8 → Bool := fun _ => false

section Instructions

variable {s : Cpu} {i : Instr} {c : Config × Config} {n : Nat}

theorem run_configs (i : Instr) (s : Cpu) :
    (i.run s).pics.configs = i.configs s.pics.configs := by
  cases i with
  | out port v =>
    simp only [Instr.run, Instr.configs, Pics.out, Pics.configs]
    split_ifs <;> rfl
  | unmask irq => rfl
  | cli => rfl
  | sti => rfl

theorem run_enabled (i : Instr) (s : Cpu) : (i.run s).enabled = i.flag s.enabled := by
  cases i <;> rfl

theorem run_ops (i : Instr) (s : Cpu) : (i.run s).ops = s.ops := by
  cases i <;> rfl

def Instr.sets : Instr → Bool
  | .out port v => (port != pic1Command && port != pic2Command) || v &&& 0xF8 != 0x20
  | _ => true

theorem kernelSetup_sets : ∀ i ∈ kernelSetup, i.sets = true := List.all_eq_true.mp (by decide)

theorem sets_isr (h : i.sets = true) (s : Cpu) : (i.run s).pics.pic1.isr = s.pics.pic1.isr ∧
    (i.run s).pics.pic2.isr = s.pics.pic2.isr := by
  cases i with
  | out port v =>
    simp only [Instr.sets, Bool.or_eq_true, Bool.and_eq_true, bne_iff_ne] at h
    simp only [Instr.run, Pics.out]
    split_ifs with h1 h2 h3 h4
    · exact ⟨if_neg (h.resolve_left fun hp => hp.1 h1), rfl⟩
    · exact ⟨rfl, rfl⟩
    · exact ⟨rfl, if_neg (h.resolve_left fun hp => hp.2 h3)⟩
    · exact ⟨rfl, rfl⟩
    · exact ⟨rfl, rfl⟩
  | unmask irq => exact ⟨rfl, rfl⟩
  | cli => exact ⟨rfl, rfl⟩
  | sti => exact ⟨rfl, rfl⟩

theorem initialized (c : Config) (offset cascade imr : UInt8) :
    ((((c.command (0x10 ||| 0x01)).data offset).data cascade).data 0x01).data imr =
      ⟨imr, offset &&& 0xF8, cascade, 0x10 ||| 0x01, false, .mask⟩ := by
  have hinit : c.command (0x10 ||| 0x01) =
      { c with imr := 0, icw1 := 0x10 ||| 0x01, autoEoi := false, expects := .icw2 } := rfl
  have hsingle : (0x10 ||| 0x01 : UInt8) &&& 0x02 = 0 := by decide
  have hicw4 : (0x10 ||| 0x01 : UInt8) &&& 0x01 ≠ 0 := by decide
  have hauto : (0x01 : UInt8) &&& 0x02 = 0 := by decide
  simp [hinit, Config.data, Config.afterIcw2, Config.afterIcw3, hsingle, hicw4, hauto]

def readyConfig (imr : UInt8) : Config :=
  ⟨imr, pic1Offset &&& 0xF8, 0x04, 0x10 ||| 0x01, false, .mask⟩

theorem configsAt_remapped (c : Config × Config) : (configsAt c 11).1 = readyConfig 0xFF :=
  initialized c.1 pic1Offset 0x04 0xFF

theorem configsAt_keyboard (c : Config × Config) : (configsAt c 12).1 = readyConfig 0xFD := by
  rw [show (configsAt c 12).1 = (configsAt c 11).1.data
    ((configsAt c 11).1.imr &&& ~~~(1 <<< irqKeyboard)) from rfl, configsAt_remapped]
  rfl

theorem configsAt_timer (c : Config × Config) : (configsAt c 15).1 = readyConfig 0xFC := by
  rw [show (configsAt c 15).1 = (configsAt c 12).1.data
    ((configsAt c 12).1.imr &&& ~~~(1 <<< irqTimer)) from rfl, configsAt_keyboard]
  rfl

/-- Wherever the setup leaves interrupts on, the chip is set and no line above 1 is open. -/
theorem configsAt_enabled (c : Config × Config) (hn : n ≤ 15) (h : enabledAt n = true) :
    ∃ imr, (configsAt c n).1 = readyConfig imr ∧
      ∀ k : Fin 8, (readyConfig imr).masks k = false → k = 0 ∨ k = 1 := by
  have hcases : ∀ n ≤ 15, enabledAt n = true → n = 11 ∨ n = 12 ∨ n = 15 := by decide
  rcases hcases n hn h with rfl | rfl | rfl
  · exact ⟨_, configsAt_remapped c, by decide⟩
  · exact ⟨_, configsAt_keyboard c, by decide⟩
  · exact ⟨_, configsAt_timer c, by decide⟩

end Instructions

section Requests

variable {p p' : Pics} {v imr : UInt8} {k : Fin 8}

theorem raise_configs (p : Pics) (irq : Fin 16) : (p.raise irq).configs = p.configs := by
  unfold Pics.raise
  split_ifs <;> rfl

theorem raise_isr (p : Pics) (irq : Fin 16) :
    (p.raise irq).pic1.isr = p.pic1.isr ∧ (p.raise irq).pic2.isr = p.pic2.isr := by
  unfold Pics.raise
  split_ifs <;> exact ⟨rfl, rfl⟩

theorem raise_irr (p : Pics) (irq : Fin 16) (k : Fin 8) :
    (p.raise irq).pic1.irr k = (p.pic1.irr k || irq.val == k.val) := by
  unfold Pics.raise
  split_ifs with h
  · simp only [Function.update_apply, Fin.ext_iff]
    by_cases hk : k.val = irq.val
    · simp [hk]
    · simp [hk, Ne.symm hk]
  · have hk : irq.val ≠ k.val := by omega
    simp [hk]

theorem request_open (h : p.pic1.request p.lines = some k) :
    p.lines k = true ∧ p.pic1.config.masks k = false := by
  have hk := List.find?_some h
  simp only [Bool.and_eq_true, Bool.not_eq_true'] at hk
  exact hk.1

theorem acknowledge_low (hc : p.pic1.config = readyConfig imr) (h01 : k = 0 ∨ k = 1)
    (hk : p.pic1.request p.lines = some k) :
    p.acknowledge = some (pic1Offset + UInt8.ofNat k, { p with pic1 := p.pic1.accept k }) := by
  have hcascade : ∀ k : Fin 8, k = 0 ∨ k = 1 → (0x04 : UInt8) &&& (1 <<< UInt8.ofNat k) = 0 := by
    decide
  have hbase : pic1Offset &&& 0xF8 = pic1Offset := by decide
  simp [Pics.acknowledge, hk, hc, readyConfig, hcascade k h01, hbase]

/-- While only lines 0 and 1 are open, the processor is given one of them. -/
theorem acknowledge_cases (hc : p.pic1.config = readyConfig imr)
    (hopen : ∀ k : Fin 8, (readyConfig imr).masks k = false → k = 0 ∨ k = 1)
    (h : p.acknowledge = some (v, p')) :
    ∃ k : Fin 8, (k = 0 ∨ k = 1) ∧ p.pic1.irr k = true ∧ v = pic1Offset + UInt8.ofNat k ∧
      p' = { p with pic1 := p.pic1.accept k } := by
  obtain ⟨k, hk, -⟩ := Option.bind_eq_some_iff.mp h
  obtain ⟨hline, hmask⟩ := request_open hk
  have h01 := hopen k (hc ▸ hmask)
  have hfirst : ∀ k : Fin 8, k = 0 ∨ k = 1 → k ≠ 2 := by decide
  rw [Pics.lines, if_neg (hfirst k h01)] at hline
  rw [acknowledge_low hc h01 hk, Option.some.injEq, Prod.mk.injEq] at h
  exact ⟨k, h01, hline, h.1.symm, h.2.symm⟩

theorem first_low {lines : Fin 8 → Bool} (h : ∀ k, lines k = true → k = 0 ∨ k = 1) :
    first lines = if lines 0 then some 0 else if lines 1 then some 1 else none := by
  have hlines : List.finRange 8 = [0, 1, 2, 3, 4, 5, 6, 7] := by decide
  have hhigh : ∀ k : Fin 8, ¬(k = 0 ∨ k = 1) → lines k = false := fun k hk => by
    simpa using mt (h k) hk
  simp only [first, hlines, List.find?_cons, hhigh 2 (by decide), hhigh 3 (by decide),
    hhigh 4 (by decide), hhigh 5 (by decide), hhigh 6 (by decide), hhigh 7 (by decide)]
  cases lines 0 <;> cases lines 1 <;> rfl

/-- With the setup done and no line handled, the timer comes first, then the keyboard. -/
theorem acknowledge_ready (hc : p.pic1.config = readyConfig 0xFC) (hs : p.pic1.isr = idle) :
    p.acknowledge =
      if p.pic1.irr 0 then some (0x20, { p with pic1 := p.pic1.accept 0 })
      else if p.pic1.irr 1 then some (0x21, { p with pic1 := p.pic1.accept 1 })
      else none := by
  have hmasks : ∀ k : Fin 8, (readyConfig 0xFC).masks k = !(k == 0 || k == 1) := by decide
  have hrequest : p.pic1.request p.lines =
      if p.pic1.irr 0 then some 0 else if p.pic1.irr 1 then some 1 else none := by
    rw [Chip.request, first_low fun k hk => by simp [hc, hmasks] at hk; exact hk.1.2]
    simp [hc, hmasks, hs, idle, Pics.lines]
  by_cases h0 : p.pic1.irr 0
  · rw [if_pos h0, acknowledge_low hc (.inl rfl) (hrequest.trans (if_pos h0))]
    rfl
  · rw [if_neg h0] at hrequest ⊢
    by_cases h1 : p.pic1.irr 1
    · rw [if_pos h1, acknowledge_low hc (.inr rfl) (hrequest.trans (if_pos h1))]
      rfl
    · rw [if_neg h1, Pics.acknowledge, hrequest, if_neg h1]
      rfl

end Requests

/-- Power on: nothing is handled, the chips may be set in any way. -/
structure AtBoot (s : Cpu) : Prop where
  ops : s.ops = kernelSetup
  disabled : s.enabled = false
  quiet : s.pics.pic1.isr = idle ∧ s.pics.pic2.isr = idle

/-- Whether a line of the first chip waits, after an event. -/
def pendingAfter (k : Fin 8) (pending : Bool) : PicEvent → Bool
  | .raise irq => pending || irq.val == k.val
  | .interrupt vector => pending && vector != pic1Offset + UInt8.ofNat k
  | .instr => pending
  | .syscall => pending

def Instr.keeps : Instr → Bool
  | .out port v => port != pic1Command || v &&& 0x10 == 0
  | _ => true

def single (k : Fin 8) : Fin 8 → Bool := Function.update idle k true

/-- Where the kernel is between the instructions of the setup: in no interrupt, in one that is still
to be acknowledged, or on the way back. -/
inductive Place (n : Nat) (s : Cpu) : Prop
  | setup : s.enabled = enabledAt n → s.ops = kernelSetup.drop n → s.pics.pic1.isr = idle →
    Place n s
  | handler (k : Fin 8) : enabledAt n = true → s.enabled = false →
    s.ops = .out pic1Command 0x20 :: .sti :: kernelSetup.drop n → s.pics.pic1.isr = single k →
    Place n s
  | leaving : enabledAt n = true → s.enabled = false → s.ops = .sti :: kernelSetup.drop n →
    s.pics.pic1.isr = idle → Place n s

structure Stage (c : Config × Config) (n : Nat) (s : Cpu) : Prop where
  le : n ≤ 15
  configs : s.pics.configs = configsAt c n
  second : s.pics.pic2.isr = idle
  place : Place n s

section Runs

variable {s t b : Cpu} {e : PicEvent} {es fs : List PicEvent} {c : Config × Config} {n : Nat}

theorem AtBoot.stage (h : AtBoot b) : Stage b.pics.configs 0 b where
  le := by omega
  configs := rfl
  second := h.quiet.2
  place := .setup h.disabled h.ops h.quiet.1

theorem clearFirst_single : ∀ k : Fin 8, clearFirst (single k) = idle := by
  intro k
  have hfirst : first (single k) = some k := by revert k; decide
  rw [clearFirst, hfirst]
  simp [single, idle]

theorem Stage.raise (h : Stage c n s) (irq : Fin 16) :
    Stage c n { s with pics := s.pics.raise irq } where
  le := h.le
  configs := (raise_configs s.pics irq).trans h.configs
  second := (raise_isr s.pics irq).2.trans h.second
  place := by
    have hisr := (raise_isr s.pics irq).1
    cases h.place with
    | setup hs hops hidle => exact .setup hs hops (hisr.trans hidle)
    | handler k hn hs hops hk => exact .handler k hn hs hops (hisr.trans hk)
    | leaving hn hs hops hidle => exact .leaving hn hs hops (hisr.trans hidle)

theorem Stage.setup_instr {i : Instr} {is : List Instr} (h : Stage c n s)
    (hops : kernelSetup.drop n = i :: is) (hs : s.enabled = enabledAt n)
    (hidle : s.pics.pic1.isr = idle) : Stage c (n + 1) (i.run { s with ops := is }) := by
  have hn : n < kernelSetup.length := by
    by_contra hge
    rw [List.drop_eq_nil_of_le (not_lt.mp hge)] at hops
    cases hops
  have hi : kernelSetup[n] = i ∧ kernelSetup.drop (n + 1) = is := by
    rwa [List.drop_eq_getElem_cons hn, List.cons.injEq] at hops
  have htake : kernelSetup.take (n + 1) = kernelSetup.take n ++ [i] := by
    rw [← hi.1, List.take_succ_eq_append_getElem hn]
  have hisr := sets_isr (kernelSetup_sets i (hi.1 ▸ List.getElem_mem hn)) { s with ops := is }
  refine ⟨hn, ?_, hisr.2.trans h.second, .setup ?_ ?_ (hisr.1.trans hidle)⟩
  · rw [run_configs, configsAt, htake, List.foldl_concat]
    exact congrArg (i.configs ·) h.configs
  · rw [run_enabled, enabledAt, htake, List.foldl_concat]
    exact congrArg i.flag hs
  · rw [run_ops, hi.2]

theorem Stage.instr {i : Instr} {is : List Instr} (h : Stage c n s) (hops : s.ops = i :: is) :
    ∃ m, n ≤ m ∧ Stage c m (i.run { s with ops := is }) := by
  cases h.place with
  | setup hs hdrop hidle => exact ⟨n + 1, by omega, h.setup_instr (hdrop ▸ hops) hs hidle⟩
  | handler k hn hs hrest hk =>
    obtain ⟨rfl, rfl⟩ := List.cons.inj (hrest.symm.trans hops)
    have hidle : clearFirst s.pics.pic1.isr = idle := by rw [hk, clearFirst_single]
    exact ⟨n, le_rfl, h.le, h.configs, h.second, .leaving hn hs rfl hidle⟩
  | leaving hn hs hrest hidle =>
    obtain ⟨rfl, rfl⟩ := List.cons.inj (hrest.symm.trans hops)
    exact ⟨n, le_rfl, h.le, h.configs, h.second, .setup hn.symm rfl hidle⟩

theorem Stage.enabled_setup (h : Stage c n s) (hs : s.enabled = true) :
    enabledAt n = true ∧ s.ops = kernelSetup.drop n ∧ s.pics.pic1.isr = idle := by
  cases h.place with
  | setup hflag hops hidle => exact ⟨hflag.symm.trans hs, hops, hidle⟩
  | handler k hn hoff => simp [hoff] at hs
  | leaving hn hoff => simp [hoff] at hs

/-- An interrupt is taken only where no other one is handled. -/
theorem Stage.interrupt {v : UInt8} {pics : Pics} (h : Stage c n s) (hs : s.enabled = true)
    (hack : s.pics.acknowledge = some (v, pics)) :
    ∃ k : Fin 8, (k = 0 ∨ k = 1) ∧ v = pic1Offset + UInt8.ofNat k ∧
      pics = { s.pics with pic1 := s.pics.pic1.accept k } ∧
      Stage c n ⟨pics, false, mainInterruptHandler v ++ .sti :: s.ops⟩ := by
  obtain ⟨hn, hops, hidle⟩ := h.enabled_setup hs
  obtain ⟨imr, hconfig, hopen⟩ := configsAt_enabled c h.le hn
  have hc : s.pics.pic1.config = readyConfig imr := by rw [← hconfig, ← h.configs]; rfl
  obtain ⟨k, h01, -, rfl, rfl⟩ := acknowledge_cases hc hopen hack
  have hhandler : mainInterruptHandler (pic1Offset + UInt8.ofNat k) = [.out pic1Command 0x20] := by
    rcases h01 with rfl | rfl <;> rfl
  have haccept : (s.pics.pic1.accept k).isr = single k := by
    simp [Chip.accept, hc, readyConfig, hidle, single]
  refine ⟨k, h01, rfl, rfl, h.le, h.configs, h.second, .handler k hn rfl ?_ haccept⟩
  rw [hhandler, hops]
  rfl

theorem Stage.done (h : Stage c n s) (hops : s.ops = []) :
    n = 15 ∧ s.enabled = true ∧ s.pics.pic1.isr = idle := by
  cases h.place with
  | setup hs hdrop hidle =>
    have hn : n = 15 := le_antisymm h.le (List.drop_eq_nil_iff.mp (hdrop.symm.trans hops))
    subst hn
    exact ⟨rfl, hs.trans (by decide), hidle⟩
  | handler k hn hs hrest => simp [hops] at hrest
  | leaving hn hs hrest => simp [hops] at hrest

theorem Stage.syscall (h : Stage c n s) (hops : s.ops = []) :
    Stage c n ⟨s.pics, false, mainInterruptHandler 0x30 ++ .sti :: s.ops⟩ := by
  obtain ⟨rfl, -, hidle⟩ := h.done hops
  refine ⟨h.le, h.configs, h.second, .leaving (by decide) rfl ?_ hidle⟩
  rw [hops]
  rfl

theorem Stage.step (h : Stage c n s) (hstep : PicStep s e t) : ∃ m, n ≤ m ∧ Stage c m t := by
  cases hstep with
  | raise irq => exact ⟨n, le_rfl, h.raise irq⟩
  | instr hops => exact h.instr hops
  | interrupt hs hack =>
    obtain ⟨-, -, -, -, ht⟩ := h.interrupt hs hack
    exact ⟨n, le_rfl, ht⟩
  | syscall hops => exact ⟨n, le_rfl, h.syscall hops⟩

theorem keeps_irr {i : Instr} (h : i.keeps = true) (s : Cpu) :
    (i.run s).pics.pic1.irr = s.pics.pic1.irr := by
  cases i with
  | out port v =>
    simp only [Instr.keeps, Bool.or_eq_true, bne_iff_ne, beq_iff_eq] at h
    simp only [Instr.run, Pics.out]
    split_ifs with h1
    · exact if_neg (not_not.mpr (h.resolve_left (not_not.mpr h1)))
    · rfl
    · rfl
    · rfl
    · rfl
  | unmask irq => rfl
  | cli => rfl
  | sti => rfl

theorem Stage.keeps {i : Instr} (h : Stage c n s) (hn : 0 < n) (hi : i ∈ s.ops) :
    i.keeps = true := by
  have htail : ∀ i ∈ kernelSetup.drop 1, i.keeps = true := List.all_eq_true.mp (by decide)
  have hdrop : ∀ i ∈ kernelSetup.drop n, i.keeps = true := fun i hi =>
    htail i (List.drop_subset_drop_left kernelSetup hn hi)
  cases h.place with
  | setup hs hops => exact hdrop i (hops ▸ hi)
  | handler k hon hs hops =>
    simp only [hops, List.mem_cons] at hi
    rcases hi with rfl | rfl | hi
    · decide
    · rfl
    · exact hdrop i hi
  | leaving hon hs hops =>
    simp only [hops, List.mem_cons] at hi
    rcases hi with rfl | hi
    · rfl
    · exact hdrop i hi

theorem Stage.pending (h : Stage c n s) (hn : 0 < n) (hstep : PicStep s e t) (k : Fin 8) :
    t.pics.pic1.irr k = pendingAfter k (s.pics.pic1.irr k) e := by
  cases hstep with
  | raise irq => exact raise_irr s.pics irq k
  | instr hops => exact congrFun (keeps_irr (h.keeps hn (hops ▸ List.mem_cons_self)) _) k
  | interrupt hs hack =>
    obtain ⟨j, -, rfl, rfl, -⟩ := h.interrupt hs hack
    have hvector : ∀ j k : Fin 8,
        (pic1Offset + UInt8.ofNat j != pic1Offset + UInt8.ofNat k) = !(k == j) := by decide
    by_cases hk : k = j
    · simp [pendingAfter, Chip.accept, hk]
    · simp [pendingAfter, Chip.accept, hvector, hk]
  | syscall => rfl

theorem stage_of_run (hb : AtBoot b) (h : Run PicStep b es s) :
    ∃ n, Stage b.pics.configs n s := by
  refine h.invariant (P := fun s => ∃ n, Stage b.pics.configs n s) ?_ ⟨0, hb.stage⟩
  rintro s e t ⟨n, hs⟩ hstep
  obtain ⟨m, -, ht⟩ := hs.step hstep
  exact ⟨m, ht⟩

theorem Stage.pending_run (h : Stage c n s) (hn : 0 < n) (hr : Run PicStep s fs t) (k : Fin 8) :
    t.pics.pic1.irr k = fs.foldl (pendingAfter k) (s.pics.pic1.irr k) := by
  -- Behind the first instruction no initialization forgets a line, and the stage never goes back.
  induction hr generalizing n with
  | nil => rfl
  | cons he _ ih =>
    obtain ⟨m, hm, ht⟩ := h.step he
    rw [ih ht (hn.trans_le hm), h.pending hn he]
    rfl

theorem vectors_of_run (hb : AtBoot b) (h : Run PicStep b es s) {v : UInt8}
    (hv : .interrupt v ∈ es) : v = 0x20 ∨ v = 0x21 := by
  obtain ⟨pre, post, rfl⟩ := List.append_of_mem hv
  obtain ⟨t, ht, hpost⟩ := h.split
  obtain ⟨n, hn⟩ := stage_of_run hb ht
  cases hpost with
  | cons he =>
    cases he with
    | interrupt hs hack =>
      obtain ⟨k, rfl | rfl, rfl, -⟩ := hn.interrupt hs hack
      · exact .inl rfl
      · exact .inr rfl

theorem Stage.started (h : Stage c n s) (hs : s.ops ≠ kernelSetup) : 0 < n := by
  by_contra hn
  obtain rfl : n = 0 := by omega
  have hoff : enabledAt 0 ≠ true := by decide
  cases h.place with
  | setup _ hops => exact hs hops
  | handler k hon => exact hoff hon
  | leaving hon => exact hoff hon

/-- Behind the setup the timer's line comes before the keyboard's, and no other one counts. -/
theorem Stage.next (h : Stage c n s) (hops : s.ops = []) (v : UInt8) :
    (∃ t, PicStep s (.interrupt v) t) ↔
      (v = 0x20 ∧ s.pics.pic1.irr 0 = true) ∨
        (v = 0x21 ∧ s.pics.pic1.irr 0 = false ∧ s.pics.pic1.irr 1 = true) := by
  obtain ⟨rfl, hs, hidle⟩ := h.done hops
  have hc : s.pics.pic1.config = readyConfig 0xFC := by
    rw [← configsAt_timer c, ← h.configs]
    rfl
  have hready := acknowledge_ready hc hidle
  constructor
  · rintro ⟨t, ht⟩
    cases ht with
    | interrupt _ hack =>
      rw [hready] at hack
      split_ifs at hack with h0 h1
      · exact .inl ⟨congrArg Prod.fst (Option.some.inj hack).symm, h0⟩
      · exact .inr ⟨congrArg Prod.fst (Option.some.inj hack).symm, by simpa using h0, h1⟩
  · rintro (⟨rfl, h0⟩ | ⟨rfl, h0, h1⟩)
    · exact ⟨_, .interrupt hs (hready.trans (if_pos h0))⟩
    · exact ⟨_, .interrupt hs (hready.trans ((if_neg (by simp [h0])).trans (if_pos h1)))⟩

/-- Whatever lines are raised, and when: only the timer and the keyboard interrupt the kernel, and
never inside an interrupt. Once the setup began, a raised line of the first controller waits until
its own interrupt; the second controller still forgets its lines when it is initialised. -/
theorem interrupts_arrive (hb : AtBoot b) (h : Run PicStep b es s) :
    (∀ v, .interrupt v ∈ es → v = 0x20 ∨ v = 0x21) ∧
      (s.enabled = true → s.pics.pic1.isr = idle ∧ s.pics.pic2.isr = idle) ∧
      (s.ops ≠ kernelSetup → ∀ fs t, Run PicStep s fs t → ∀ k,
        t.pics.pic1.irr k = fs.foldl (pendingAfter k) (s.pics.pic1.irr k)) ∧
      (s.ops = [] → s.enabled = true ∧ ∀ v, (∃ t, PicStep s (.interrupt v) t) ↔
        (v = 0x20 ∧ s.pics.pic1.irr 0 = true) ∨
          (v = 0x21 ∧ s.pics.pic1.irr 0 = false ∧ s.pics.pic1.irr 1 = true)) := by
  obtain ⟨n, hn⟩ := stage_of_run hb h
  refine ⟨fun v hv => vectors_of_run hb h hv, fun hs => ⟨(hn.enabled_setup hs).2.2, hn.second⟩,
    fun hs fs t ht k => ?_, fun hops => ⟨(hn.done hops).2.1, hn.next hops⟩⟩
  exact hn.pending_run (hn.started hs) ht k

theorem instrs_run {ops : List Instr} (s : Cpu) (hops : s.ops = ops) :
    Run PicStep s (List.replicate ops.length .instr)
      (ops.foldl (fun s i => i.run { s with ops := s.ops.tail }) s) := by
  induction ops generalizing s with
  | nil => exact .nil s
  | cons i is ih =>
    have hs : PicStep s .instr (i.run { s with ops := s.ops.tail }) := by
      rw [hops]
      exact .instr hops
    exact .cons hs (ih _ (by rw [run_ops, hops]; rfl))

/-- A key is hit right behind the first instruction of the setup. -/
theorem interrupts_arrive_key :
    let chip : Chip := ⟨⟨0, 0, 0, 0, false, .mask⟩, idle, idle⟩
    ∃ es s, Run PicStep ⟨⟨chip, chip⟩, false, kernelSetup⟩ (.instr :: .raise 1 :: es) s ∧
      s.ops = [] ∧ ∃ t, PicStep s (.interrupt 0x21) t := by
  intro chip
  have hboot : AtBoot ⟨⟨chip, chip⟩, false, kernelSetup⟩ := ⟨rfl, rfl, rfl, rfl⟩
  obtain ⟨s, hs⟩ : ∃ s, s = Instr.run (.out pic1Command (0x10 ||| 0x01))
    ⟨⟨chip, chip⟩, false, kernelSetup.tail⟩ := ⟨_, rfl⟩
  have hfirst : PicStep ⟨⟨chip, chip⟩, false, kernelSetup⟩ .instr s := hs ▸ .instr rfl
  have hrun := instrs_run { s with pics := s.pics.raise 1 } rfl
  have hraise := Run.cons hfirst (.cons (.raise 1) hrun)
  subst hs
  have hnext := ((interrupts_arrive hboot hraise).2.2.2 rfl).2 0x21
  exact ⟨_, _, hraise, rfl, hnext.mpr (.inr ⟨rfl, rfl, rfl⟩)⟩

end Runs

end Doors.Pic
