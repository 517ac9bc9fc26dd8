import Doors.FrameBuffer

/-! What a redraw leaves in the video memory, cell by cell, and which accesses it makes. -/

namespace Doors.Console

variable (s : Console)

@[simp] theorem touch_text (a : Access) : (s.touch a).text = s.text := rfl

@[simp] theorem touch_memory (a : Access) : (s.touch a).memory = s.memory := rfl

@[simp] theorem touch_log (a : Access) : (s.touch a).log = a :: s.log := rfl

@[simp] theorem edit_text (f : TextBuffer → TextBuffer) : (s.edit f).text = f s.text := rfl

@[simp] theorem edit_memory (f : TextBuffer → TextBuffer) : (s.edit f).memory = s.memory := rfl

@[simp] theorem edit_log (f : TextBuffer → TextBuffer) : (s.edit f).log = s.log := rfl

@[simp] theorem writeLine_text (i : Int) (f : LineBuffer → LineBuffer) :
    (s.writeLine i f).text = s.text.setLine i f := rfl

@[simp] theorem writeLine_memory (i : Int) (f : LineBuffer → LineBuffer) :
    (s.writeLine i f).memory = s.memory := rfl

@[simp] theorem writeLine_log (i : Int) (f : LineBuffer → LineBuffer) :
    (s.writeLine i f).log = .line i :: s.log := rfl

@[simp] theorem setVideo_text (pos : Int) (value : UInt8) : (s.setVideo pos value).text = s.text :=
  rfl

@[simp] theorem setVideo_memory (pos : Int) (value : UInt8) :
    (s.setVideo pos value).memory = Function.update s.memory pos value := rfl

@[simp] theorem setVideo_log (pos : Int) (value : UInt8) :
    (s.setVideo pos value).log = .video pos :: s.log := rfl

@[simp] theorem clearVideo_text (pos : Int) (value : UInt8) :
    (s.clearVideo pos value).text = s.text := rfl

@[simp] theorem clearVideo_memory (pos : Int) (value : UInt8) :
    (s.clearVideo pos value).memory = Function.update s.memory pos value := rfl

@[simp] theorem clearVideo_log (pos : Int) (value : UInt8) :
    (s.clearVideo pos value).log = .clear pos :: s.log := rfl

/-- Whether the cursor is viewable plays no part in a redraw. -/
structure Painted (s s' : Console) : Prop where
  text : s'.text = s.text
  viewable : s'.isCursorViewable = s.isCursorViewable

variable {s}

theorem Painted.foldl {f : Console → Nat → Console} (hf : ∀ s i, Painted s (f s i)) (is : List Nat) :
    Painted s (is.foldl f s) := by
  induction is generalizing s with
  | nil => exact ⟨rfl, rfl⟩
  | cons i is ih =>
    have hi := hf s i
    have hh := ih (s := f s i)
    exact ⟨hh.text.trans hi.text, hh.viewable.trans hi.viewable⟩

theorem framebufferClear_painted : Painted s s.framebufferClear := by
  rw [framebufferClear]
  apply Painted.foldl
  exact fun _ _ => ⟨rfl, rfl⟩

theorem drawCell_painted (i : Nat) (s : Console) (j : Nat) : Painted s (drawCell i s j) := by
  unfold drawCell
  split_ifs
  · exact ⟨rfl, rfl⟩
  · exact ⟨rfl, rfl⟩

theorem drawRow_painted (s : Console) (i : Nat) : Painted s (s.drawRow i) := by
  have hh := Painted.foldl (s := s.touch (.line (i + s.text.frameRowPointer)))
    (drawCell_painted i) (List.range (s.text.buffer (i + s.text.frameRowPointer)).size.toNat)
  exact ⟨hh.text, hh.viewable⟩

theorem redraw_painted : Painted s s.redraw := by
  have hc := framebufferClear_painted (s := s)
  have hh := Painted.foldl (s := s.framebufferClear) drawRow_painted
    (List.range (visibleRows s.text))
  exact ⟨hh.text.trans hc.text, hh.viewable.trans hc.viewable⟩

@[simp] theorem redraw_text : s.redraw.text = s.text := redraw_painted.text

/-- The position in the video memory of the character in row `r`, column `c`. -/
def videoPos (r c : Nat) : Int := r * 160 + c * 2

/-- The two bytes of a cell. -/
def cellAt (memory : Int → UInt8) (r c : Nat) : UInt8 × UInt8 :=
  (memory (videoPos r c), memory (videoPos r c + 1))

def blank : UInt8 × UInt8 := (0x00, 0x07)

/-- The cell that a redraw shows in row `r`, column `c`. -/
def TextBuffer.shown (t : TextBuffer) (r c : Nat) : UInt8 × UInt8 :=
  if r < visibleRows t ∧ (c : Int) < (t.buffer (r + t.frameRowPointer)).size then
    ((t.buffer (r + t.frameRowPointer)).lineBuf c, (t.buffer (r + t.frameRowPointer)).colorBuf c)
  else blank

theorem visibleRows_le (t : TextBuffer) : visibleRows t ≤ 25 := by
  simp only [visibleRows]
  split_ifs <;> omega

theorem visibleRows_uint8 (t : TextBuffer) :
    visibleRows t ≤ (uint8 (t.size - t.frameRowPointer)).toNat := by
  simp only [visibleRows]
  split_ifs <;> omega

theorem clearLoop_memory (n : Nat) (pos : Int) :
    ((List.range n).foldl clearCell s).memory pos =
      if 0 ≤ pos ∧ pos < 2 * n then (if pos % 2 = 0 then 0x00 else 0x07) else s.memory pos := by
  induction n with
  | zero =>
    rw [if_neg (by omega)]
    rfl
  | succ n ih =>
    rw [List.range_succ, List.foldl_append, List.foldl_cons, List.foldl_nil]
    simp only [clearCell, clearVideo_memory]
    by_cases h1 : pos = 2 * n + 1
    · rw [h1, Function.update_self, if_pos (by omega), if_neg (by omega)]
    · rw [Function.update_of_ne h1]
      by_cases h0 : pos = 2 * n
      · rw [h0, Function.update_self, if_pos (by omega), if_pos (by omega)]
      · rw [Function.update_of_ne h0, ih]
        by_cases hp : 0 ≤ pos ∧ pos < 2 * n
        · rw [if_pos hp, if_pos (show 0 ≤ pos ∧ pos < 2 * ((n + 1 : Nat) : Int) by omega)]
        · rw [if_neg hp, if_neg (by omega)]

theorem framebufferClear_cell {r c : Nat} (hr : r < 25) (hc : c < 80) :
    cellAt s.framebufferClear.memory r c = blank := by
  simp only [cellAt, framebufferClear, clearLoop_memory, videoPos, blank]
  rw [if_pos (by omega), if_pos (by omega), if_pos (by omega), if_neg (by omega)]

theorem drawCell_cell {i j r c : Nat} (hj : j < 80) (hc : c < 80) :
    cellAt (drawCell i s j).memory r c =
      if r = i ∧ c = j then ((s.text.buffer (s.text.frameRowPointer + i)).lineBuf j,
        (s.text.buffer (s.text.frameRowPointer + i)).colorBuf j)
      else cellAt s.memory r c := by
  rw [drawCell, if_neg (by omega)]
  simp only [cellAt, setVideo_memory, touch_memory, touch_text, setVideo_text, videoPos]
  by_cases h : r = i ∧ c = j
  · obtain ⟨rfl, rfl⟩ := h
    rw [if_pos ⟨rfl, rfl⟩, Function.update_self, Function.update_of_ne (by omega),
      Function.update_self]
  · rw [if_neg h, Function.update_of_ne (by omega), Function.update_of_ne (by omega),
      Function.update_of_ne (by omega), Function.update_of_ne (by omega)]

theorem drawCells_cell {i m r c : Nat} (hm : m ≤ 80) (hc : c < 80) :
    cellAt ((List.range m).foldl (drawCell i) s).memory r c =
      if r = i ∧ c < m then ((s.text.buffer (s.text.frameRowPointer + i)).lineBuf c,
        (s.text.buffer (s.text.frameRowPointer + i)).colorBuf c)
      else cellAt s.memory r c := by
  induction m with
  | zero => rw [if_neg (by omega)]; rfl
  | succ m ih =>
    have htext := (Painted.foldl (s := s) (drawCell_painted i) (List.range m)).text
    rw [List.range_succ, List.foldl_append, List.foldl_cons, List.foldl_nil,
      drawCell_cell (by omega) hc, htext, ih (by omega)]
    by_cases h : r = i ∧ c = m
    · rw [if_pos h, if_pos (by omega), h.2]
    · rw [if_neg h]
      by_cases h' : r = i ∧ c < m
      · rw [if_pos h', if_pos (by omega)]
      · rw [if_neg h', if_neg (by omega)]

theorem drawRow_cell {i r c : Nat} (hc : c < 80)
    (hsize : (s.text.buffer (i + s.text.frameRowPointer)).size ≤ 79) :
    cellAt (s.drawRow i).memory r c =
      if r = i ∧ (c : Int) < (s.text.buffer (i + s.text.frameRowPointer)).size then
        ((s.text.buffer (i + s.text.frameRowPointer)).lineBuf c,
          (s.text.buffer (i + s.text.frameRowPointer)).colorBuf c)
      else cellAt s.memory r c := by
  simp only [drawRow, touch_text]
  rw [drawCells_cell (by omega) hc]
  simp only [touch_text, touch_memory, Int.add_comm s.text.frameRowPointer]
  by_cases h : r = i ∧ (c : Int) < (s.text.buffer (i + s.text.frameRowPointer)).size
  · rw [if_pos h, if_pos (by omega)]
  · rw [if_neg h, if_neg (by omega)]

theorem drawRows_cell {n r c : Nat} (hc : c < 80)
    (hsize : ∀ i < n, (s.text.buffer (i + s.text.frameRowPointer)).size ≤ 79) :
    cellAt ((List.range n).foldl drawRow s).memory r c =
      if r < n ∧ (c : Int) < (s.text.buffer (r + s.text.frameRowPointer)).size then
        ((s.text.buffer (r + s.text.frameRowPointer)).lineBuf c,
          (s.text.buffer (r + s.text.frameRowPointer)).colorBuf c)
      else cellAt s.memory r c := by
  induction n with
  | zero => rw [if_neg (by omega)]; rfl
  | succ n ih =>
    have htext := (Painted.foldl (s := s) drawRow_painted (List.range n)).text
    rw [List.range_succ, List.foldl_append, List.foldl_cons, List.foldl_nil,
      drawRow_cell hc (by rw [htext]; exact hsize n (by omega)), htext,
      ih fun i hi => hsize i (by omega)]
    by_cases hrn : r = n
    · subst hrn
      by_cases h : (c : Int) < (s.text.buffer (r + s.text.frameRowPointer)).size
      · rw [if_pos ⟨rfl, h⟩, if_pos ⟨by omega, h⟩]
      · rw [if_neg fun hh => h hh.2, if_neg fun hh => h hh.2, if_neg fun hh => h hh.2]
    · rw [if_neg fun hh => hrn hh.1]
      by_cases h : r < n ∧ (c : Int) < (s.text.buffer (r + s.text.frameRowPointer)).size
      · rw [if_pos h, if_pos ⟨by omega, h.2⟩]
      · rw [if_neg h, if_neg (by omega)]

theorem redraw_cell {r c : Nat} (hr : r < 25) (hc : c < 80)
    (hsize : ∀ i < visibleRows s.text, (s.text.buffer (i + s.text.frameRowPointer)).size ≤ 79) :
    cellAt s.redraw.memory r c = s.text.shown r c := by
  have htext := (framebufferClear_painted (s := s)).text
  rw [redraw, drawRows_cell hc (by rw [htext]; exact hsize), htext, framebufferClear_cell hr hc]
  rfl

/-- The access is in bounds, or it is a store of `framebuffer_clear`. -/
def Access.InScreen (a : Access) : Prop := a.InBounds ∨ ∃ pos, a = .clear pos

/-- Every access of the log is in bounds, the stores of `framebuffer_clear` apart. -/
def LogInScreen (log : List Access) : Prop := ∀ a ∈ log, a.InScreen

theorem LogInScreen.cons {a : Access} {log : List Access} (ha : a.InScreen) (h : LogInScreen log) :
    LogInScreen (a :: log) := by
  intro b hb
  rcases List.mem_cons.mp hb with rfl | hb
  · exact ha
  · exact h b hb

theorem logInScreen_foldl {P : Console → Nat → Prop} {f : Console → Nat → Console}
    {is : List Nat} (hf : ∀ s i, i ∈ is → P s i → LogInScreen s.log → LogInScreen (f s i).log)
    (hP : ∀ s i k, P s k → P (f s i) k) (h : LogInScreen s.log) (hs : ∀ i ∈ is, P s i) :
    LogInScreen (is.foldl f s).log := by
  induction is generalizing s with
  | nil => exact h
  | cons i is ih =>
    apply ih
    · intro t k hk
      exact hf t k (by simp [hk])
    · exact hf s i (by simp) (hs i (by simp)) h
    · intro k hk
      exact hP s i k (hs k (by simp [hk]))

theorem framebufferClear_log (h : LogInScreen s.log) : LogInScreen s.framebufferClear.log := by
  apply logInScreen_foldl (P := fun _ _ => True) _ (fun _ _ _ _ => trivial) h (fun _ _ => trivial)
  intro t i _ _ ht
  exact .cons (.inr ⟨_, rfl⟩) (.cons (.inr ⟨_, rfl⟩) ht)

theorem drawCell_log {i j : Nat} (hi : i < 25) (hj : j < 79)
    (hline : 0 ≤ s.text.frameRowPointer + i ∧ s.text.frameRowPointer + i < 4096)
    (h : LogInScreen s.log) : LogInScreen (drawCell i s j).log := by
  have hcell : (Access.cell j).InScreen := .inl ⟨by omega, by omega⟩
  have hvideo : (Access.video (i * 160 + j * 2)).InScreen := .inl ⟨by omega, by omega⟩
  have hvideo' : (Access.video (i * 160 + j * 2 + 1)).InScreen := .inl ⟨by omega, by omega⟩
  rw [drawCell, if_neg (by omega)]
  simp only [setVideo_log, touch_log, touch_text, setVideo_text]
  exact .cons hvideo' (.cons hcell (.cons (.inl hline) (.cons hvideo (.cons hcell
    (.cons (.inl hline) h)))))

/-- The lines in view are lines of the buffer. -/
structure InView (t : TextBuffer) (n : Nat) : Prop where
  nonneg : 0 ≤ t.frameRowPointer
  lines : t.frameRowPointer + n ≤ 4096
  size : ∀ i < n, (t.buffer (i + t.frameRowPointer)).size ≤ 79

theorem drawRow_log {i n : Nat} (hi : i < n) (hn : n ≤ 25) (hv : InView s.text n)
    (h : LogInScreen s.log) : LogInScreen (s.drawRow i).log := by
  have h0 := hv.nonneg
  have hl := hv.lines
  have hs := hv.size i hi
  simp only [drawRow, touch_text]
  apply logInScreen_foldl (P := fun t _ => t.text = s.text)
  · intro t j hj ht hlog
    rw [List.mem_range] at hj
    exact drawCell_log (by omega) (by omega) (by rw [ht]; omega) hlog
  · intro t j _ ht
    exact (drawCell_painted i t j).text.trans ht
  · exact .cons (.inl ⟨by omega, by omega⟩) h
  · exact fun _ _ => rfl

theorem redraw_log (hv : InView s.text (visibleRows s.text)) (h : LogInScreen s.log) :
    LogInScreen s.redraw.log := by
  have htext := (framebufferClear_painted (s := s)).text
  apply logInScreen_foldl (P := fun t _ => t.text = s.text)
  · intro t i hi ht hlog
    rw [List.mem_range] at hi
    exact drawRow_log hi (visibleRows_le _) (by rw [ht]; exact hv) hlog
  · intro t i _ ht
    exact (drawRow_painted t i).text.trans ht
  · exact framebufferClear_log h
  · exact fun _ _ => htext

end Doors.Console
