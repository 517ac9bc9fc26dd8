import Doors.FilePaths
import Doors.MoveFile
import Doors.ParentCheck
import Doors.PathWalk

/-! A folder copied to itself or below: the copy meets its own new folder, so that it never
ends with one copy of what was there. -/

namespace Doors.Fat32

open PointerTree FileSystem

section Plain

variable {s s' : FileSystem} {x : Nat}

theorem plainBelow_leaf (h : ∀ j, folderChild s x j = none) : PlainBelow s x := by
  intro d i c hb hc
  rcases Relation.ReflTransGen.cases_head hb with rfl | ⟨b, ⟨j, hj⟩, -⟩
  · rw [h i] at hc
    cases hc
  · rw [h j] at hj
    cases hj

theorem Filled.below {request : Request} {i : Fin entryCount} {e : FAT32DirectoryEntry}
    (h : Filled s s' request i e) (hs : Directories s) (hx : LiveDir s x) {d : Nat}
    (hb : Below (folderChild s') x d) : Below (folderChild s) x d ∨
      LiveDir s request.parent ∧ folderChild s' request.parent i = some d := by
  induction hb with
  | refl => exact .inl .refl
  | @tail b c hb he ih =>
    obtain ⟨j, hj⟩ := he
    rcases ih with ih | ⟨hp, hnew⟩
    · have hlive := below_reach ih hx
      by_cases hslot : b = request.parent ∧ j = i
      · obtain ⟨rfl, rfl⟩ := hslot
        exact .inr ⟨hlive, hj⟩
      · rw [h.child_eq hs hlive fun hbp hji => hslot ⟨hbp, hji⟩] at hj
        exact .inl (ih.tail ⟨j, hj⟩)
    · exact absurd (folderChild_eq_some.mp hj).1 (h.new_empty hs hp hnew j)

/-- A write that makes a folder without an extension keeps what is below `x` plain. -/
theorem Filled.plainBelow {request : Request} {i : Fin entryCount} {e : FAT32DirectoryEntry}
    (h : Filled s s' request i e) (hs : Directories s) (hx : LiveDir s x)
    (hplain : PlainBelow s x) (hext : request.bufferSize = 0 → request.ext = fun _ => 0) :
    PlainBelow s' x := by
  intro d j c hb hc
  rcases h.below hs hx hb with hb | ⟨hp, hnew⟩
  · have hd := below_reach hb hx
    by_cases hslot : d = request.parent ∧ j = i
    · obtain ⟨rfl, rfl⟩ := hslot
      rw [h.entry_new hs hd, h.ext]
      exact hext (h.child_new hs hd hc).1
    · have hne : d = request.parent → j ≠ i := fun hdp hji => hslot ⟨hdp, hji⟩
      rw [h.child_eq hs hd hne] at hc
      rw [h.entry_eq hs hd hne]
      exact hplain d j c hb hc
  · exact absurd (folderChild_eq_some.mp hc).1 (h.new_empty hs hp hnew j)

theorem write_plainBelow {request : Request} {code : Int} (hs : Directories s)
    (hx : LiveDir s x) (hplain : PlainBelow s x)
    (hext : request.bufferSize = 0 → request.ext = fun _ => 0)
    (h : write s request = .ok (code, s')) : PlainBelow s' x := by
  obtain ⟨-, ⟨-, rfl⟩ | ⟨-, ⟨-, rfl⟩ | ⟨-, rfl⟩ | ⟨-, i, e, hf⟩⟩⟩ := write_cases h
  · exact hplain
  · exact hplain
  · exact hplain
  · exact hf.plainBelow hs hx hplain hext

end Plain

/-- No file of the tree is empty. -/
def FilesSized (s : FileSystem) : Prop :=
  ∀ d i, LiveDir s d → FileSlot s d i → (s.table d i).filesize ≠ 0

theorem EntriesKept.filesSized {s s' : FileSystem} (h : EntriesKept s s') (hs : FilesSized s') :
    FilesSized s := by
  intro d i hd hf
  have he := h.entry hd hf.1.2
  rw [← he]
  refine hs d i (h.liveDir hd) ⟨h.liveSlot hd hf.1, ?_⟩
  rw [he]
  exact hf.2

/-- What `rec` makes below `x` is plain, if in the end no file is empty. -/
def MakesPlain (x : Nat)
    (rec : FileSystem → Nat → Nat → Except Fault (Int × FileSystem)) : Prop :=
  ∀ s s' a d code, Directories s → LiveDir s x → LiveDir s a → PlainBelow s x →
    rec s a d = .ok (code, s') → FilesSized s' → PlainBelow s' x

section Plain

variable {s s' : FileSystem} {x : Nat}
  {rec : FileSystem → Nat → Nat → Except Fault (Int × FileSystem)}

theorem getClusterNumber_plainBelow {request : Request} {c : Nat} (hplain : PlainBelow s x)
    (h : getClusterNumber s request = .ok (c, s')) : PlainBelow s' x := by
  rcases getClusterNumber_state h with rfl | rfl
  · exact hplain
  · exact hplain

theorem SlotCalls.plainBelow (hrec : MakesPlain x rec) {src dest : Nat}
    {i : Fin entryCount} (hs : Directories s) (hx : LiveDir s x) (hsrc : LiveDir s src)
    (hl : LiveSlot s src i) (hplain : PlainBelow s x)
    (h : SlotCalls rec dest (s.table src i) s s') (hfiles : FilesSized s') :
    PlainBelow s' x := by
  cases h with
  | file hk hwrite =>
    refine write_plainBelow hs hx hplain (fun hz => ?_) hwrite
    obtain ⟨-, hkept⟩ := write_grows hs hwrite
    exact absurd hz (hkept.filesSized hfiles src i hsrc ⟨hl, hk⟩)
  | folder hk hwrite hnumber hcopy =>
    obtain ⟨hs₁, h₁⟩ := write_grows hs hwrite
    obtain ⟨hs₂, h₂⟩ := getClusterNumber_grows hs₁ hnumber
    have hkept := h₁.trans h₂
    have hchild : folderChild s src i = some (s.table src i).clusterNumber :=
      folderChild_eq_some.mpr ⟨hl, hk, rfl⟩
    exact hrec _ _ _ _ _ hs₂ (hkept.liveDir hx) (hkept.liveDir (hsrc.step hchild))
      (getClusterNumber_plainBelow (write_plainBelow hs hx hplain (fun _ => rfl) hwrite) hnumber)
      hcopy hfiles

theorem copyFolderLoop_plainBelow (hg : Grows rec) (hrec : MakesPlain x rec) {src dest : Nat}
    {is : List (Fin entryCount)} (hr : ∀ i ∈ is, 2 ≤ i.val) {code : Int} (hs : Directories s)
    (hx : LiveDir s x) (hsrc : LiveDir s src) (hbuf : s.dirTableBuf = s.table src)
    (hplain : PlainBelow s x) (h : copyFolderLoop rec src dest is s = .ok (code, s'))
    (hfiles : FilesSized s') : PlainBelow s' x := by
  induction is generalizing s with
  | nil =>
    cases h
    exact hplain
  | cons i is ih =>
    have hr' : ∀ j ∈ is, 2 ≤ j.val := fun j hj => hr j (List.mem_cons_of_mem i hj)
    rcases copyFolderLoop_cons h with ⟨-, h⟩ | ⟨hl, t, hcalls, h⟩
    · exact ih hr' hs hx hsrc hbuf hplain h
    · rw [hbuf] at hcalls hl
      obtain ⟨ht, hk⟩ := hcalls.grows hg hs
      obtain ⟨-, hk'⟩ := copyFolderLoop_grows hg (ht.loadDir src) h
      have hslot : LiveSlot s src i := ⟨hr i (by simp), hl⟩
      have hfiles' : FilesSized t := (((EntriesKept.refl t).loadDir src).trans hk').filesSized hfiles
      have hplain' : PlainBelow t x := hcalls.plainBelow hrec hs hx hsrc hslot hplain hfiles'
      exact ih hr' (ht.loadDir src) (hk.liveDir hx) (hk.liveDir hsrc) rfl hplain' h

theorem copyFolder_plainBelow (fuel : Nat) : MakesPlain x (copyFolder fuel) := by
  induction fuel with
  | zero =>
    intro s s' a d code _ _ _ _ h
    cases h
  | succ fuel ih =>
    intro s s' a d code hs hx ha hplain h hfiles
    rcases copyFolder_succ h with rfl | h
    · exact hplain
    · exact copyFolderLoop_plainBelow (copyFolder_grows fuel) ih (fun _ hi => mem_slotsFrom.mp hi)
        (hs.loadDir a) hx ha rfl hplain h hfiles

end Plain

section Meets

variable {s t s' : FileSystem} {rec : FileSystem → Nat → Nat → Except Fault (Int × FileSystem)}

/-- Every slot that is live when the loop starts comes up in it. -/
theorem copyFolderLoop_at (hg : Grows rec) {src dest : Nat} {is : List (Fin entryCount)}
    {i : Fin entryCount} (hi : i ∈ is) {code : Int} (hs : Directories s) (hsrc : LiveDir s src)
    (hl : (s.table src i).live = true) (hbuf : s.dirTableBuf = s.table src)
    (h : copyFolderLoop rec src dest is s = .ok (code, s')) :
    ∃ t t', Directories t ∧ EntriesKept s t ∧ SlotCalls rec dest (s.table src i) t t' ∧
      EntriesKept t' s' := by
  induction is generalizing s with
  | nil => exact absurd hi List.not_mem_nil
  | cons j is ih =>
    rcases copyFolderLoop_cons h with ⟨hdead, hrest⟩ | ⟨-, t, hcalls, hrest⟩
    · rcases List.mem_cons.mp hi with rfl | hi
      · rw [hbuf, hl] at hdead
        cases hdead
      · exact ih hi hs hsrc hl hbuf hrest
    · obtain ⟨ht, hk⟩ := hcalls.grows hg hs
      have hk := hk.loadDir src
      rcases List.mem_cons.mp hi with rfl | hi
      · rw [hbuf] at hcalls
        obtain ⟨-, hk'⟩ := copyFolderLoop_grows hg (ht.loadDir src) hrest
        exact ⟨s, t, hs, .refl s, hcalls, ((EntriesKept.refl t).loadDir src).trans hk'⟩
      · have he := hk.entry hsrc hl
        obtain ⟨t₁, t₂, ht₁, hk₁, hcalls, hk₂⟩ :=
          ih hi (ht.loadDir src) (hk.liveDir hsrc) (he ▸ hl) rfl hrest
        rw [he] at hcalls
        exact ⟨t₁, t₂, ht₁, hk.trans hk₁, hcalls, hk₂⟩

theorem write_present (hs : Directories s) {request : Request} {x : Nat} (hx : LiveDir s x)
    (hp : request.parent = x) {code : Int} (h : write s request = .ok (code, s')) :
    (∃ j, LiveSlot s' x j ∧ (s'.table x j).name = request.name ∧
      (s'.table x j).ext = request.ext) ∨ ∀ j : Fin entryCount, 2 ≤ j.val → LiveSlot s' x j := by
  subst hp
  obtain ⟨-, ⟨hm, -⟩ | ⟨-, ⟨⟨j, hj, hn⟩, rfl⟩ | ⟨hf, rfl⟩ | ⟨-, i, e, hf⟩⟩⟩ := write_cases h
  · exact absurd (hs.mark hx) hm
  · obtain ⟨hname, hext⟩ := FAT32DriverRequest.names_iff.mp hn
    exact .inl ⟨j, hj, hname, hext⟩
  · refine .inr fun j hj => ⟨hj, ?_⟩
    have hnone := List.find?_eq_none.mp hf j (mem_slotsFrom.mpr hj)
    simpa using hnone
  · have he := hf.entry_new hs hx
    refine .inl ⟨i, ⟨(firstFree_some hf.slot).1, ?_⟩, ?_, ?_⟩
    · rw [he, hf.live]
    · rw [he, hf.name]
    · rw [he, hf.ext]

/-- In the end `x` is no full directory if it is to look like one with a dead slot. -/
theorem SameTree.not_full {d x : Nat} (h : SameTree s d s' x) {k : Fin entryCount}
    (hk : 2 ≤ k.val) (hdead : (s.table d k).live = false) :
    ¬ ∀ j : Fin entryCount, 2 ≤ j.val → LiveSlot s' x j := by
  intro hfull
  have hall : liveSlots s' x = slotsFrom 2 :=
    List.filter_eq_self.mpr fun j hj => (hfull j (mem_slotsFrom.mp hj)).2
  have hlen := h.length_eq
  rw [hall] at hlen
  have hlive := List.length_filter_eq_length_iff.mp hlen k (mem_slotsFrom.mpr hk)
  rw [hdead] at hlive
  cases hlive

/-- The new folder of that name that a copy asks for in `dest`. -/
def subfolder (name : Name) (dest : Nat) : Request :=
  ⟨zeroBytes, name, fun _ => 0, UInt32.ofNat dest, 0⟩

theorem copyFolder_at {fuel src dest : Nat} {i : Fin entryCount} {a : Nat} {code : Int}
    (hs : Directories s) (hsrc : LiveDir s src) (ha : folderChild s src i = some a)
    (h : copyFolder fuel s src dest = .ok (code, s')) :
    ∃ n t t₁ t₂ t₃ c code₁ code₂, Directories t ∧ EntriesKept s t ∧
      write t (subfolder (s.table src i).name dest) = .ok (code₁, t₁) ∧
      getClusterNumber t₁ (subfolder (s.table src i).name dest) = .ok (c, t₂) ∧
      copyFolder n t₂ a c = .ok (code₂, t₃) ∧ EntriesKept t₃ s' := by
  obtain ⟨hl, hk, rfl⟩ := folderChild_eq_some.mp ha
  cases fuel with
  | zero => cases h
  | succ n =>
    rw [copyFolder, s.withParent_accepted (hs.range hsrc).2 (hs.mark hsrc)] at h
    obtain ⟨t, t₃, ht, hkept, hcalls, hend⟩ := copyFolderLoop_at (copyFolder_grows n)
      (mem_slotsFrom.mpr hl.1) (hs.loadDir src) hsrc hl.2 rfl h
    cases hcalls with
    | file hfile => exact absurd (hfile.symm.trans hk) Bool.false_ne_true
    | folder _ hwrite hnumber hcopy =>
      exact ⟨n, t, _, _, t₃, _, _, _, ht, ((EntriesKept.refl s).loadDir src).trans hkept, hwrite,
        hnumber, hcopy, hend⟩

/-- The lookup finds the folder that corresponds to the source's, if that is the only one of
its name. -/
theorem lookup_same {s₀ : FileSystem} (hw' : WellFormed s') {d x a c : Nat}
    {i : Fin entryCount} (hplain : PlainBelow s₀ d) (hs : Directories s)
    (hx : LiveDir s x) (hend : EntriesKept s s') (hsame : SameTree s₀ d s' x)
    (ha : folderChild s₀ d i = some a)
    (hpresent : (∃ j, LiveSlot s x j ∧ (s.table x j).name = (s₀.table d i).name ∧
      (s.table x j).ext = fun _ => 0) ∨ ∀ j : Fin entryCount, 2 ≤ j.val → LiveSlot s x j)
    (hnumber : getClusterNumber s (subfolder (s₀.table d i).name x) = .ok (c, t)) :
    LiveDir s c ∧ SameTree s₀ a s' c := by
  have hx' := hend.liveDir hx
  have hi := (folderChild_eq_some.mp ha).1
  obtain ⟨y, hy, hentry⟩ := hsame.entry hi
  obtain ⟨b, hb, hab⟩ := hentry.child a ha
  have hext : (s'.table x y).ext = fun _ => 0 := hentry.ext.trans (hplain d i a .refl ha)
  have hys : LiveSlot s x y := by
    rcases hpresent with ⟨j, hj, hname, hjx⟩ | hfull
    · have he := hend.entry hx hj.2
      have hjy : j = y := hw'.names_unique hx' (hend.liveSlot hx hj) hy
        (he ▸ hname.trans hentry.name.symm) (he ▸ hjx.trans hext.symm)
      exact hjy ▸ hj
    · exact hfull y hy.1
  have hye := hend.entry hx hys.2
  have hyb : folderChild s x y = some b := (folderChild_congr hye).symm.trans hb
  have hparent : (subfolder (s₀.table d i).name x).parent = x := ofNat_parent (hs.range hx).2
  obtain ⟨c', hc', hfound⟩ := @getClusterNumber_marked _
    (subfolder (s₀.table d i).name x) (by rw [hparent]; exact (hs.range hx).2)
    (by rw [hparent]; exact hs.mark hx)
  rw [hc'] at hnumber
  cases hnumber
  rw [hparent] at hfound
  rcases hfound with ⟨-, hnone⟩ | ⟨z, hz, hname, -⟩
  · exact absurd (hye ▸ hentry.name) (hnone y b hyb)
  · have hz' := hend.child hx hz
    have hze := hend.entry hx (folderChild_eq_some.mp hz).1.2
    obtain ⟨z₀, -, hentry'⟩ := hsame.symm.entry (folderChild_eq_some.mp hz').1
    obtain ⟨a', ha', -⟩ := hentry'.child c hz'
    have hzx : (s'.table x z).ext = fun _ => 0 :=
      hentry'.ext.symm.trans (hplain d z₀ a' .refl ha')
    have hzy : z = y := hw'.names_unique hx' (folderChild_eq_some.mp hz').1 hy
      ((hze ▸ hname).trans hentry.name.symm) (hzx.trans hext.symm)
    subst hzy
    cases hyb.symm.trans hz
    exact ⟨hx.step hz, hab⟩

/-- A copy from `d` to `x` cannot leave `x` like `d` was, if the slot `k` of a directory `t`
below `d` was dead at first and holds a folder of a new name by now. -/
theorem copyFolder_meets {s₀ : FileSystem} {t d : Nat} {k : Fin entryCount} {name : Name}
    (hw' : WellFormed s') (hk : 2 ≤ k.val)
    (hdead : (s₀.table t k).live = false)
    (hfresh : ∀ j, LiveSlot s₀ t j → (s₀.table t j).name = name →
      (s₀.table t j).ext ≠ fun _ => 0) (hb : Below (folderChild s₀) d t) :
    ∀ {fuel x : Nat} {code : Int} {s s₁ : FileSystem}, LiveDir s₀ d → PlainBelow s₀ d →
      Directories s → EntriesKept s₀ s → (∃ b, folderChild s t k = some b) →
      (s.table t k).name = name → LiveDir s x → SameTree s₀ d s' x →
      copyFolder fuel s d x = .ok (code, s₁) → EntriesKept s₁ s' → False := by
  induction hb using Relation.ReflTransGen.head_induction_on with
  | refl =>
    intro fuel x code s s₁ hd _ hs hold hnew hname hx hsame h hend
    obtain ⟨b, hb⟩ := hnew
    obtain ⟨n, u, u₁, u₂, u₃, c, code₁, code₂, hu, hsu, hwrite, hnumber, hcopy, hend'⟩ :=
      copyFolder_at hs (hold.liveDir hd) hb h
    obtain ⟨hu₁, huu₁⟩ := write_grows hu hwrite
    obtain ⟨hu₂, hu₁₂⟩ := getClusterNumber_grows hu₁ hnumber
    obtain ⟨-, hu₂₃⟩ := copyFolder_grows n _ _ _ _ _ hu₂ hcopy
    have hlast := ((hu₁₂.trans hu₂₃).trans hend').trans hend
    have hx₁ := huu₁.liveDir (hsu.liveDir hx)
    have hparent : (subfolder (s.table t k).name x).parent = x := ofNat_parent (hs.range hx).2
    rcases write_present hu (hsu.liveDir hx) hparent hwrite with ⟨j, hj, hjn, hjx⟩ | hfull
    · obtain ⟨j₀, hj₀, hentry⟩ := hsame.symm.entry (hlast.liveSlot hx₁ hj)
      have he := hlast.entry hx₁ hj.2
      refine hfresh j₀ hj₀ ?_ ?_
      · rw [hentry.name, he, hjn]
        exact hname
      · rw [hentry.ext, he, hjx]
        rfl
    · exact hsame.not_full hk hdead fun j hj => hlast.liveSlot hx₁ (hfull j hj)
  | @head d b hstep hb ih =>
    intro fuel x code s s₁ hd hplain hs hold hnew hname hx hsame h hend
    obtain ⟨i, hi⟩ := hstep
    obtain ⟨n, u, u₁, u₂, u₃, c, code₁, code₂, hu, hsu, hwrite, hnumber, hcopy, hend'⟩ :=
      copyFolder_at hs (hold.liveDir hd) (hold.child hd hi) h
    have he := hold.entry hd (folderChild_eq_some.mp hi).1.2
    rw [he] at hwrite hnumber
    obtain ⟨hu₁, huu₁⟩ := write_grows hu hwrite
    obtain ⟨hu₂, hu₁₂⟩ := getClusterNumber_grows hu₁ hnumber
    obtain ⟨-, hu₂₃⟩ := copyFolder_grows n _ _ _ _ _ hu₂ hcopy
    have hlast := ((hu₁₂.trans hu₂₃).trans hend').trans hend
    have hsu₁ := hsu.trans huu₁
    have hsu₂ := hsu₁.trans hu₁₂
    have hparent : (subfolder (s₀.table d i).name x).parent = x := ofNat_parent (hs.range hx).2
    obtain ⟨hc, hbc⟩ := lookup_same hw' hplain hu₁ (hsu₁.liveDir hx) hlast hsame hi
      (write_present hu (hsu.liveDir hx) hparent hwrite) hnumber
    obtain ⟨g, hg⟩ := hnew
    have htlive : LiveDir s t := hold.liveDir (below_reach (.head ⟨i, hi⟩ hb) hd)
    have hge := hsu₂.entry htlive (folderChild_eq_some.mp hg).1.2
    exact ih (hd.step hi) (fun e j f he hf => hplain e j f (.head ⟨i, hi⟩ he) hf) hu₂
      (hold.trans hsu₂) ⟨g, hsu₂.child htlive hg⟩ (hge ▸ hname) (hu₁₂.liveDir hc) hbc hcopy
      (hend'.trans hend)

end Meets

section Self

variable {s s' : FileSystem} {d e : Nat}

theorem write_again (hw : WellFormed s) (hd : LiveDir s d) {i : Fin entryCount}
    (hi : LiveSlot s d i) {buf : Nat → UInt8} {size : UInt32} {code : Int}
    (h : write (s.loadDir e) ⟨buf, (s.table d i).name, (s.table d i).ext, UInt32.ofNat d, size⟩ =
      .ok (code, s')) : s' = s.loadDir d := by
  have hparent := @ofNat_parent buf (s.table d i).name (s.table d i).ext size d (hw.dir_range hd).2
  rw [write_clash (hw.loadDir e) (by rwa [hparent]) ⟨i, by rwa [hparent], by
    rw [hparent]
    exact FAT32DriverRequest.names_iff.mpr ⟨rfl, rfl⟩⟩, hparent] at h
  exact (congrArg Prod.snd (Except.ok.inj h)).symm

theorem SlotCalls.self {rec : FileSystem → Nat → Nat → Except Fault (Int × FileSystem)}
    (hrec : ∀ b e s' code, LiveDir s b → PlainBelow s b →
      rec (s.loadDir e) b b = .ok (code, s') → ∃ e', s' = s.loadDir e')
    (hw : WellFormed s) (hd : LiveDir s d) (hplain : PlainBelow s d) {i : Fin entryCount}
    (hi : LiveSlot s d i) (h : SlotCalls rec d (s.table d i) (s.loadDir d) s') :
    ∃ e', s' = s.loadDir e' := by
  cases h with
  | file hk hwrite => exact ⟨d, write_again hw hd hi hwrite⟩
  | folder hk hwrite hnumber hcopy =>
    have hc : folderChild s d i = some (s.table d i).clusterNumber :=
      folderChild_eq_some.mpr ⟨hi, hk, rfl⟩
    have hext := hplain d i _ .refl hc
    rw [← hext] at hwrite hnumber
    obtain rfl := write_again hw hd hi hwrite
    have hparent := @ofNat_parent zeroBytes (s.table d i).name (s.table d i).ext 0 d
      (hw.dir_range hd).2
    rw [getClusterNumber_first (hw.loadDir d) (i := i) (by rwa [hparent]) (by
      rw [hparent]
      exact hc) (by rw [hparent]; rfl), hparent] at hnumber
    · cases hnumber
      exact hrec _ _ _ _ (hd.step hc) (fun x j b hx => hplain x j b (hx.head ⟨i, hc⟩)) hcopy
    · intro j b hj hn
      rw [hparent] at hj hn
      have hj' := (folderChild_eq_some.mp hj).1
      exact le_of_eq (hw.names_unique hd hi hj' hn.symm (hext.trans (hplain d j b .refl hj).symm))

/-- Where no folder has an extension a copy of a directory to itself changes nothing. -/
theorem copyFolder_onto_self (hw : WellFormed s) (fuel : Nat) : ∀ d e s' code, LiveDir s d →
    PlainBelow s d → copyFolder fuel (s.loadDir e) d d = .ok (code, s') →
    ∃ e', s' = s.loadDir e' := by
  induction fuel with
  | zero =>
    intro d e s' code _ _ h
    cases h
  | succ fuel ih =>
    intro d e s' code hd hplain h
    rw [copyFolder, (s.loadDir e).withParent_accepted (hw.dir_range hd).2 (hw.dir_mark hd)] at h
    have hr : ∀ i ∈ slotsFrom 2, 2 ≤ i.val := fun i hi => mem_slotsFrom.mp hi
    have hloop : copyFolderLoop (copyFolder fuel) d d (slotsFrom 2) (s.loadDir d) =
        .ok (code, s') := h
    clear h
    generalize slotsFrom 2 = is at hr hloop
    induction is with
    | nil =>
      cases hloop
      exact ⟨d, rfl⟩
    | cons i is ih' =>
      have hr' : ∀ j ∈ is, 2 ≤ j.val := fun j hj => hr j (List.mem_cons_of_mem i hj)
      rcases copyFolderLoop_cons hloop with ⟨-, hloop⟩ | ⟨hl, t, hcalls, hloop⟩
      · exact ih' hr' hloop
      · obtain ⟨e', rfl⟩ := hcalls.self ih hw hd hplain ⟨hr i List.mem_cons_self, hl⟩
        exact ih' hr' hloop

end Self

end Doors.Fat32

namespace Doors.Shell

open PointerTree Fat32 FileSystem

/-- `dest` has got one new folder, which is a copy of what `src` was before. -/
structure CopiedOnce (s s' : FileSystem) (src dest : Nat) (name : Name) : Prop where
  wellFormed : WellFormed s'
  copy : ∃ k c, (s.table dest k).live = false ∧ folderChild s' dest k = some c ∧
    (s'.table dest k).name = name ∧ SameTree s src s' c ∧
    ∀ j, j ≠ k → s'.table dest j = s.table dest j
  clusters : s.freeClusters.length ≤
    s'.freeClusters.length + (subtreeClusters s src).ncard + 2

section Created

variable {s s₁ s' : FileSystem} {req : Request} {k : Fin entryCount} {cs : List Nat} {a : Nat}

theorem copyIntoExisting_created (hw : WellFormed s) (hwr : Written s s₁ req k cs)
    (hw₁ : WellFormed s₁) (hz : req.bufferSize = 0) (hwrite : write s req = .ok (0, s₁)) {b : Bool}
    (hrun : copyIntoExisting s req a = .ok (b, s')) : ∃ c s₂ code,
      getClusterNumber s₁ req = .ok (c, s₂) ∧ copyFolder clusterMapSize s₂ a c = .ok (code, s') := by
  obtain ⟨c, -, -, hnew⟩ := hwr.folderChild_new hz
  have hp : LiveDir s₁ req.parent := (hwr.grown.liveDir_iff hw).mpr (.inl hwr.grown.parent)
  have hname : (s₁.table req.parent k).name = req.name := by
    rw [hwr.grown.entry_new]
    rfl
  rcases copyIntoExisting_calls hrun with ⟨res, hres, ht⟩ | ⟨t, c', s₂, ht, hnumber, hends⟩
  · cases hwrite.symm.trans ht
    exact absurd rfl hres
  cases hwrite.symm.trans ht
  obtain ⟨c'', hfound, ⟨-, hnone⟩ | ⟨i, hi, -⟩⟩ := getClusterNumber_found hw₁ hp
  · exact absurd hname (hnone k c hnew)
  · cases hfound.symm.trans hnumber
    have hr := hw₁.dir_range (hp.step hi)
    obtain ⟨code, hcopy⟩ := hends.resolve_left fun h => by omega
    exact ⟨c', _, code, hnumber, hcopy⟩

/-- A copy that has made its new folder inside the source does not end in one copy of it. -/
theorem copyIntoExisting_not_once (hw : WellFormed s) (ha : LiveDir s a)
    (hb : Below (folderChild s) a req.parent) (hc : ¬ Clash s req) (hz : req.bufferSize = 0)
    (hx : req.ext = noExt) (hwr : Written s s₁ req k cs) (hwrite : write s req = .ok (0, s₁))
    {b : Bool} (hrun : copyIntoExisting s req a = .ok (b, s')) :
    (s'.table req.parent k).live = true ∧ ¬ CopiedOnce s s' a req.parent req.name := by
  have hw₁ := hwr.wellFormed hw hc
  obtain ⟨c, -, -, hnew⟩ := hwr.folderChild_new hz
  obtain ⟨c', s₂, code, hnumber, hcopy⟩ :=
    copyIntoExisting_created hw hwr hw₁ hz hwrite hrun
  obtain ⟨hdirs₁, hkept₁⟩ := write_grows hw.directories hwrite
  obtain ⟨hdirs₂, hkept₂⟩ := getClusterNumber_grows hdirs₁ hnumber
  obtain ⟨-, hkept₃⟩ := copyFolder_grows clusterMapSize _ _ _ _ _ hdirs₂ hcopy
  have hdead := (firstFree_some hwr.slot).2
  have hp := hkept₁.liveDir hwr.grown.parent
  have hp₂ := hkept₂.liveDir hp
  have hnew₂ := hkept₂.child hp hnew
  have hnew' := hkept₃.child hp₂ hnew₂
  have hlive := (folderChild_eq_some.mp hnew').1.2
  refine ⟨hlive, fun honce => ?_⟩
  obtain ⟨k', x, hdead', hx', hname', hsame, hothers⟩ := honce.copy
  obtain rfl : k' = k := by
    by_contra hne
    rw [hothers k (Ne.symm hne), hdead] at hlive
    cases hlive
  cases hnew'.symm.trans hx'
  have hk : (newEntry (s.table req.parent k') req (newKind req) (cs.headD 0)).isSubdirectory =
      true := by
    rw [newEntry_isSubdirectory, hz]
    rfl
  have hleaf : ∀ j, folderChild s₁ c j = none := by
    cases (hwr.grown.child_new hk).symm.trans hnew
    exact hwr.grown.leaf hk
  have hfiles : FilesSized s' := fun d i hd hf => filesize_ne_zero honce.wellFormed hd hf
  have hplain' : PlainBelow s' c := copyFolder_plainBelow clusterMapSize _ _ _ _ _ hdirs₂
    (hp₂.step hnew₂) (hkept₂.liveDir (hkept₁.liveDir ha))
    (getClusterNumber_plainBelow (plainBelow_leaf hleaf) hnumber) hcopy hfiles
  have hplain := hsame.plainBelow hplain'
  have hfresh : ∀ j, LiveSlot s req.parent j → (s.table req.parent j).name = req.name →
      (s.table req.parent j).ext ≠ fun _ => 0 :=
    fun j hj hn hjx => not_clash hc hj hn (hjx.trans hx.symm)
  have hname₁ : (s₁.table req.parent k').name = req.name := by
    rw [hwr.grown.entry_new]
    rfl
  -- the folders of `dest` are plain, so none of them is found for the new name
  have hfirst : ∀ j b, folderChild s₁ req.parent j = some b →
      (s₁.table req.parent j).name = req.name → k' ≤ j := by
    intro j b hj hn
    rcases hwr.grown.liveSlot_cases hw hp (folderChild_eq_some.mp hj).1 with
      ⟨-, rfl⟩ | ⟨-, hjs, he, -⟩
    · exact le_refl _
    · rw [folderChild_congr he] at hj
      rw [he] at hn
      exact absurd (hplain req.parent j b hb hj) (hfresh j hjs hn)
  cases hnumber.symm.trans (getClusterNumber_first hw₁ hp hnew hname₁ hfirst)
  exact copyFolder_meets honce.wellFormed (firstFree_some hwr.slot).1 hdead hfresh hb ha hplain
    hdirs₂ (hkept₁.trans hkept₂) ⟨c, hnew₂⟩ hname₁ (hp₂.step hnew₂) hsame hcopy (.refl _)

end Created

section Itself

variable {state : ShellState} {s : FileSystem} {src dest : List UInt8} {source target : Resolved}

theorem cpRec_existing (hs : getCurrAndParentCluster s src state.workDir = .ok source)
    (hsc : source.code = 1) (ht : getCurrAndParentCluster s dest state.workDir = .ok target)
    (htc : target.code = 1) : cpRec state s src dest =
      copyIntoExisting s (request source.filename noExt target.currentCluster)
        source.currentCluster >>= fun r => .ok r.2 := by
  simp only [cpRec, bind, Except.bind, hs, ht, hsc, htc]
  rfl

theorem cpRec_refused (hs : getCurrAndParentCluster s src state.workDir = .ok source)
    (hsc : source.code = 1) (ht : getCurrAndParentCluster s dest state.workDir = .ok target)
    (htc : target.code = 1) {code : Int} {s' : FileSystem} (hcode : code ≠ 0)
    (h : write s (request source.filename noExt target.currentCluster) = .ok (code, s')) :
    cpRec state s src dest = .ok s' := by
  rw [cpRec_existing hs hsc ht htc]
  simp only [copyIntoExisting, bind, Except.bind, h, hcode, ne_eq, not_false_eq_true, if_true]
  rfl

theorem clash_iff_entryAt (hw : WellFormed s) {d : Nat} (hd : LiveDir s d) (name : Name) :
    Clash s (request name noExt d) ↔ ∃ i, EntryAt s d name noExt i := by
  simp only [Clash, request_parent hw.loose hd, FAT32DriverRequest.names_iff]
  rfl

/-- If the new folder is made then the copy is neither refused nor made once. -/
theorem cpRec_nests (hw : WellFormed s) (ha : LiveDir s source.currentCluster)
    (hs : getCurrAndParentCluster s src state.workDir = .ok source) (hsc : source.code = 1)
    (ht : getCurrAndParentCluster s dest state.workDir = .ok target) (htc : target.code = 1)
    (hb : Below (folderChild s) source.currentCluster target.currentCluster)
    (hnone : ¬ ∃ i, EntryAt s target.currentCluster source.filename noExt i) {j : Fin entryCount}
    (hj : 2 ≤ j.val) (hdead : ¬ LiveSlot s target.currentCluster j)
    (hroom : 1 ≤ s.freeClusters.length) :
    ¬ ∃ s', cpRec state s src dest = .ok s' ∧ (Unchanged s s' ∨
      CopiedOnce s s' source.currentCluster target.currentCluster source.filename) := by
  rintro ⟨s', hrun, hres⟩
  have htl : LiveDir s target.currentCluster := below_reach hb ha
  obtain ⟨req, hreq⟩ : ∃ req, req = request source.filename noExt target.currentCluster := ⟨_, rfl⟩
  have hparent : req.parent = target.currentCluster := hreq ▸ request_parent hw.loose htl
  have hname : req.name = source.filename := hreq ▸ rfl
  have hc : ¬ Clash s req := fun h => hnone ((clash_iff_entryAt hw htl _).mp (hreq ▸ h))
  obtain ⟨k, hf⟩ := firstFree_exists (p := req.parent) hj (by rw [hparent]; exact not_live hj hdead)
  have hneeded : clustersNeeded req = 1 := hreq ▸ if_pos rfl
  rw [← hparent] at hb htl hres
  obtain ⟨s₁, cs, hwrite, hwr⟩ := write_new hw htl hc hf (by omega)
  rw [cpRec_existing hs hsc ht htc, ← hreq] at hrun
  obtain ⟨⟨b, t⟩, hcopy, hrun⟩ := bind_ok hrun
  obtain rfl : t = s' := Except.ok.inj hrun
  obtain ⟨hlive, hnot⟩ :=
    copyIntoExisting_not_once hw ha hb hc (hreq ▸ rfl) (hreq ▸ rfl) hwr hwrite hcopy
  rcases hres with hsame | honce
  · have htable : t.table = s.table := by
      funext d
      exact congrArg decodeTable (funext fun n => congrFun hsame.disk _)
    rw [htable, (firstFree_some hf).2] at hlive
    cases hlive
  · exact hnot (hname ▸ honce)

/-- Copying a folder into itself or below is harmless just if the first write is refused. -/
theorem cpRec_into_itself_iff (hw : WellFormed s) (hd : LiveDir s state.workDir)
    (hs : getCurrAndParentCluster s src state.workDir = .ok source) (hsc : source.code = 1)
    (ht : getCurrAndParentCluster s dest state.workDir = .ok target) (htc : target.code = 1)
    (hb : Below (folderChild s) source.currentCluster target.currentCluster)
    (hroom : (subtreeClusters s source.currentCluster).ncard + 1 ≤ s.freeClusters.length) :
    (∃ s', cpRec state s src dest = .ok s' ∧ (Unchanged s s' ∨
      CopiedOnce s s' source.currentCluster target.currentCluster source.filename)) ↔
    (∃ i, EntryAt s target.currentCluster source.filename noExt i) ∨
      ∀ i : Fin entryCount, 2 ≤ i.val → LiveSlot s target.currentCluster i := by
  obtain ⟨hsp, hsf, -⟩ := resolved_liveDir hw hd hs
  obtain ⟨i, hi⟩ := hsf hsc
  have ha : LiveDir s source.currentCluster := hsp.step hi
  have htl : LiveDir s target.currentCluster := below_reach hb ha
  constructor
  · intro hdone
    by_contra hno
    obtain ⟨hnone, hslots⟩ := not_or.mp hno
    obtain ⟨j, hj⟩ := not_forall.mp hslots
    obtain ⟨hj, hdead⟩ := Classical.not_imp.mp hj
    exact cpRec_nests hw ha hs hsc ht htc hb hnone hj hdead (by omega) hdone
  · intro hrefused
    have hparent : (request source.filename noExt target.currentCluster).parent =
        target.currentCluster := request_parent hw.loose htl
    have hp : LiveDir s (request source.filename noExt target.currentCluster).parent := by
      rwa [hparent]
    by_cases hc : Clash s (request source.filename noExt target.currentCluster)
    · exact ⟨_, cpRec_refused hs hsc ht htc (by decide) (write_clash hw hp hc), .inl ⟨rfl, rfl⟩⟩
    · have hfull := hrefused.resolve_left fun h => hc ((clash_iff_entryAt hw htl _).mpr h)
      have hf : firstFree s (request source.filename noExt target.currentCluster).parent = none := by
        rw [hparent]
        refine List.find?_eq_none.mpr fun j hj => ?_
        simp [(hfull j (mem_slotsFrom.mp hj)).2]
      exact ⟨_, cpRec_refused hs hsc ht htc (by decide) (write_full hw hp hc hf), .inl ⟨rfl, rfl⟩⟩

end Itself

/-- The path to a folder `a` in the root. -/
theorem resolve_bytePath {s : FileSystem} {a : Nat} {k : Fin entryCount} (hw : WellFormed s)
    (ha : folderChild s rootClusterNumber k = some a)
    (hname : (s.table rootClusterNumber k).name = fun _ => 'a'.toUInt8)
    (hext : (s.table rootClusterNumber k).ext = fun _ => 0) :
    getCurrAndParentCluster s bytePath initial.workDir =
      .ok ⟨1, rootClusterNumber, a, toName bytePath, noExt⟩ := by
  have hk := folderChild_eq_some.mp ha
  have hpath : toName bytePath = (s.table rootClusterNumber k).name := by
    rw [hname]
    decide
  have hfound := findEntry_found hw reach_root hk.1 (by rw [← hpath]; decide)
  rw [← hpath, hext] at hfound
  rw [resolve_row (by rfl) (by rfl) (by decide), show initial.workDir = rootClusterNumber from rfl,
    show toExt [] = noExt from rfl, show noExt = fun _ => 0 from rfl, hfound]
  simp only [hk.2.1, hk.2.2, if_true]

theorem resolve_folder : ∃ s a, WellFormed s ∧ LiveDir s a ∧ (∀ i, ¬ LiveSlot s a i) ∧
    subtreeClusters s a = ∅ ∧ s.freeClusters.length = 508 ∧
    getCurrAndParentCluster s bytePath initial.workDir =
      .ok ⟨1, rootClusterNumber, a, toName bytePath, noExt⟩ := by
  obtain ⟨s, a, k, hw, -, ha, hname, hext, -, hempty, hfree⟩ := folder_below_root
  refine ⟨s, a, hw, reach_root.step ha, hempty, ?_, hfree, resolve_bytePath hw ha hname hext⟩
  exact Set.eq_empty_of_forall_notMem fun c ⟨i, hi⟩ => hempty i (region_live hi)

/-- A folder that has an entry of its own name, with its own path as destination: nothing is
copied. -/
theorem cpRec_into_itself_iff_refused : ∃ s s', ∃ source : Resolved, source.code = 1 ∧
    (∃ i, EntryAt s source.currentCluster source.filename noExt i) ∧
    cpRec initial s bytePath bytePath = .ok s' ∧ (Unchanged s s' ∨
      CopiedOnce s s' source.currentCluster source.currentCluster source.filename) := by
  obtain ⟨s₁, a, k, hw₁, hplain₁, ha₁, hname, hext, -, hempty₁, hfree₁⟩ := folder_below_root
  have hda := reach_root.step ha₁
  obtain ⟨s, i, hp, -⟩ := mkdir_placed hw₁ hplain₁ hda (toName bytePath)
    (fun j hj => absurd hj (hempty₁ j)) (j := 2) (by decide) (not_live (by decide) (hempty₁ 2))
    (by omega)
  have hw := hp.extension.wellFormed
  obtain ⟨x, hx, -, hempty⟩ := hp.folder rfl
  have ha := hp.extension.folderChild hw₁ reach_root ha₁
  have hroom : s₁.freeClusters.length = s.freeClusters.length + 1 := hp.room
  have hroot : s.table rootClusterNumber = s₁.table rootClusterNumber := by
    refine hp.extension.table_eq hw₁ reach_root ?_
    rintro rfl
    exact hw₁.tree.root_orphan reach_root ha₁
  have honly (j : Fin entryCount) (hj : LiveSlot s a j) : j = i := by
    obtain ⟨e, htable, -⟩ := hp.table
    by_contra hne
    rw [LiveSlot, htable, Function.update_of_ne hne] at hj
    exact hempty₁ j hj
  have hcount := subtreeClusters_of_only (reach_root.step ha) hx honly hempty
  have hs := resolve_bytePath hw ha (hroot ▸ hname) (hroot ▸ hext)
  have hentry : EntryAt s a (toName bytePath) noExt i :=
    ⟨(folderChild_eq_some.mp hx).1, hp.name, hp.ext⟩
  have hroom' : (subtreeClusters s a).ncard + 1 ≤ s.freeClusters.length := by omega
  obtain ⟨s', hs', hdone⟩ := (cpRec_into_itself_iff hw reach_root hs rfl hs rfl .refl
    hroom').mpr (.inl ⟨i, hentry⟩)
  exact ⟨s, s', ⟨1, rootClusterNumber, a, toName bytePath, noExt⟩, rfl, ⟨i, hentry⟩, hs', hdone⟩

/-- The folder is not copied once, however much room there is. -/
theorem cpRec_into_itself_fails : ∃ s source, WellFormed s ∧
    getCurrAndParentCluster s bytePath initial.workDir = .ok source ∧ source.code = 1 ∧
    (subtreeClusters s source.currentCluster).ncard + 1 ≤ s.freeClusters.length ∧
    ¬ ∃ s', cpRec initial s bytePath bytePath = .ok s' ∧ (Unchanged s s' ∨
      CopiedOnce s s' source.currentCluster source.currentCluster source.filename) := by
  obtain ⟨s, a, hw, ha, hempty, hnone, hfree, hs⟩ := resolve_folder
  refine ⟨s, _, hw, hs, rfl, ?_, cpRec_nests hw ha hs rfl hs rfl .refl
    (fun ⟨i, hi⟩ => hempty i hi.1) (j := 2) (by decide) (hempty 2) (by omega)⟩
  rw [hnone, Set.ncard_empty]
  omega

end Doors.Shell
