import Doors.ParentCheck
import Doors.ReservedClusters
import Doors.ReadBuffer

/-! The power goes between two requests and the driver starts again from the disk. What
it keeps in memory is on the disk too, or is loaded before it is used, so that no later
request can tell. -/

namespace Doors.Fat32

open PointerTree FileSystem

namespace Unchanged

variable {s t s' : FileSystem} {code refused : Int}

theorem refl (s : FileSystem) : Unchanged s s := ⟨rfl, rfl⟩

theorem symm (h : Unchanged s t) : Unchanged t s := ⟨h.clusterMap.symm, h.disk.symm⟩

/-- The states differ in the directory buffer only. -/
theorem eq_buffer (h : Unchanged s t) : t = { s with dirTableBuf := t.dirTableBuf } := by
  cases t
  cases h.clusterMap
  cases h.disk
  rfl

theorem loadDir_eq (h : Unchanged s t) (d : Nat) : t.loadDir d = s.loadDir d := by
  rw [h.eq_buffer]
  rfl

theorem next_eq (h : Unchanged s t) : t.next = s.next := by
  rw [h.eq_buffer]
  rfl

theorem liveDir_iff (h : Unchanged s t) (d : Nat) : LiveDir t d ↔ LiveDir s d := by
  rw [h.eq_buffer]
  rfl

/-- A request that does not look at the buffer it finds. -/
theorem withParent (h : Unchanged s t) {parent : Nat} {body body' : Except Fault (Int × FileSystem)}
    (hbody : body' = body) (hs : s.withParent parent (refused, s) body = .ok (code, s')) :
    ∃ t', t.withParent parent (refused, t) body' = .ok (code, t') ∧ Unchanged s' t' := by
  subst hbody
  by_cases hp : parent < 512
  · by_cases hm : s.next parent = fatEndOfFile
    · rw [s.withParent_accepted hp hm] at hs
      rw [t.withParent_accepted hp (by rw [h.next_eq, hm])]
      exact ⟨s', hs, refl s'⟩
    · rw [s.withParent_refused hp hm] at hs
      rw [t.withParent_refused hp (by rwa [h.next_eq])]
      cases hs
      exact ⟨t, rfl, h⟩
  · rw [s.withParent_outOfBounds (by omega)] at hs
    cases hs

/-- Every request returns the same code and leaves the same disk. -/
theorem call (h : Unchanged s t) {call : DiskCall} (hs : call.run s = .ok (code, s')) :
    ∃ t', call.run t = .ok (code, t') ∧ Unchanged s' t' := by
  cases call with
  | write request => exact h.withParent (by rw [h.loadDir_eq]) hs
  | delete request => exact h.withParent (by rw [h.loadDir_eq]) hs
  | deleteFolderRec request => exact h.withParent (by rw [h.loadDir_eq]) hs
  | copyFile src dest => exact h.withParent (by rw [h.loadDir_eq]) hs
  | copyFolder src dest => exact h.withParent (by rw [h.loadDir_eq]) hs

theorem readChain_eq (h : Unchanged s t) : readChain t = readChain s := by
  funext fuel mem idx c
  rw [← readChain_loadDir t 0, h.loadDir_eq, readChain_loadDir]

theorem readBack_eq (h : Unchanged s t) (request : Request) :
    readBack t request = readBack s request := by
  by_cases hp : request.parent < 512
  · by_cases hm : s.next request.parent = fatEndOfFile
    · rw [readBack, readBack, Fat32.read, Fat32.read, s.withParent_accepted hp hm,
        t.withParent_accepted hp (by rw [h.next_eq, hm]), h.loadDir_eq]
    · rw [readBack_refused hp hm, readBack_refused hp (by rwa [h.next_eq])]
  · rw [readBack, readBack, Fat32.read, Fat32.read, s.withParent_outOfBounds (by omega),
      t.withParent_outOfBounds (by omega)]

theorem findsCluster_iff (h : Unchanged s t) (request : Request) :
    FindsCluster t request ↔ FindsCluster s request := by
  rw [h.eq_buffer]
  rfl

theorem copyFolderFinds_iff (h : Unchanged s t) (fuel src dest : Nat) :
    CopyFolderFinds fuel t src dest ↔ CopyFolderFinds fuel s src dest := by
  cases fuel with
  | zero => rfl
  | succ fuel => rw [CopyFolderFinds, CopyFolderFinds, h.loadDir_eq]

theorem copyFileFinds_iff (h : Unchanged s t) (src dest : Request) :
    CopyFileFinds t src dest ↔ CopyFileFinds s src dest := by
  have htable : t.table = s.table := by
    rw [h.eq_buffer]
    rfl
  simp only [CopyFileFinds, h.loadDir_eq, h.readChain_eq, htable, h.findsCluster_iff]

theorem findsClusters_iff (h : Unchanged s t) (call : DiskCall) :
    call.FindsClusters t ↔ call.FindsClusters s := by
  cases call with
  | write request => exact h.findsCluster_iff request
  | delete request => rfl
  | deleteFolderRec request => rfl
  | copyFile src dest => exact h.copyFileFinds_iff src dest
  | copyFolder src dest => exact h.copyFolderFinds_iff clusterMapSize src dest

theorem owns (h : Unchanged s t) {o : Option (Nat × Fin entryCount)} {c : Nat}
    (ho : Owns s o c) : Owns t o c := by
  rw [h.eq_buffer]
  cases ho with
  | root => exact .root
  | folder hd hc => exact .folder hd hc
  | file hd hf hl hc => exact .file hd hf hl hc

theorem formed (h : Unchanged s t) {Fits : UInt32 → Nat → Prop} (hw : Formed Fits s) :
    Formed Fits t := by
  have hown : ∀ {o c}, Owns t o c ↔ Owns s o c := ⟨h.symm.owns, h.owns⟩
  rw [h.eq_buffer] at hown ⊢
  exact { hw with
    owner_unique := fun h h' => hw.owner_unique (hown.mp h) (hown.mp h')
    used_iff := fun h₂ hc => (hw.used_iff h₂ hc).trans (exists_congr fun _ => hown.symm) }

theorem liveParents_iff (h : Unchanged s t) (call : DiskCall) :
    call.LiveParents t ↔ call.LiveParents s := by
  cases call <;> simp only [DiskCall.LiveParents, h.liveDir_iff]

end Unchanged

theorem findsCluster_of_room {s : FileSystem} {request : Request} (h : HasRoom s request) :
    FindsCluster s request := by
  intro _ hc hf
  by_contra hnone
  exact take_ne_nil (h hc hf) (take_eq_nil_iff.mpr hnone)

/-- A request with the code it returns, or the machine started again. -/
inductive PowerEvent
  | call (call : DiskCall) (code : Int)
  | reboot (root : Name)

def PowerEvent.isCall : PowerEvent → Bool
  | .call .. => true
  | .reboot _ => false

def PowerStep (s : FileSystem) : PowerEvent → FileSystem → Prop
  | .call call code, s' => call.FindsClusters s ∧ call.LiveParents s ∧ call.run s = .ok (code, s')
  | .reboot root, s' => s' = initializeFilesystemFat32 root (boot s.disk)

theorem reboot_step (root : Name) (s : FileSystem) :
    PowerStep s (.reboot root) (initializeFilesystemFat32 root (boot s.disk)) := rfl

/-- What a reboot relies on. -/
structure Bootable (s : FileSystem) : Prop where
  loose : Loose s
  formatted : isEmptyStorage s = false

theorem Bootable.reboot {s s' : FileSystem} (h : Bootable s) {root : Name}
    (hs : PowerStep s (.reboot root) s') : Unchanged s s' := by
  rw [show s' = _ from hs, initialize_mirrored h.loose.mirrored h.formatted]
  exact ⟨rfl, rfl⟩

theorem Bootable.unchanged {s t : FileSystem} (h : Bootable s) (hu : Unchanged s t) :
    Bootable t :=
  ⟨hu.formed h.loose, (isEmptyStorage_congr (by rw [hu.eq_buffer]; rfl)).trans h.formatted⟩

theorem Bootable.step {s s' : FileSystem} {e : PowerEvent} (h : Bootable s)
    (hs : PowerStep s e s') : Bootable s' := by
  cases e with
  | call call code =>
    have hk := diskStep_spares h.loose hs.1 ⟨hs.2.1, code, hs.2.2⟩
    exact ⟨hk.loose, (isEmptyStorage_congr hk.boot).trans h.formatted⟩
  | reboot root => exact h.unchanged (h.reboot hs)

/-- The run without its reboots, beside the run. -/
theorem calls_of_run {s s' t : FileSystem} {es : List PowerEvent} (h : Bootable s)
    (hu : Unchanged s t) (hrun : Run PowerStep s es s') :
    ∃ t', Run PowerStep t (es.filter PowerEvent.isCall) t' ∧ Unchanged s' t' ∧ Bootable s' := by
  induction hrun generalizing t with
  | nil s => exact ⟨t, .nil t, hu, h⟩
  | @cons s s₁ s' e es hs _ ih =>
    have h₁ := h.step hs
    cases e with
    | call call code =>
      obtain ⟨t₁, ht, hu₁⟩ := hu.call hs.2.2
      obtain ⟨t', hrest, hu', h'⟩ := ih h₁ hu₁
      refine ⟨t', .cons ⟨?_, ?_, ht⟩ hrest, hu', h'⟩
      · exact (hu.findsClusters_iff call).mpr hs.1
      · exact (hu.liveParents_iff call).mpr hs.2.1
    | reboot root =>
      -- The run beside takes no step: a reboot gives the state it starts from but for the buffer.
      have hr := h.reboot hs
      exact ih h₁ ⟨hu.clusterMap.trans hr.clusterMap.symm, hu.disk.trans hr.disk.symm⟩

/-- A run with reboots ends where the run without them ends, and answers as it does. -/
theorem reboots_transparent (root : Name) (disk : Nat → UInt8) {es : List PowerEvent}
    {s : FileSystem} (h : Run PowerStep (createFat32 root (boot disk)) es s) :
    ∃ t, Run PowerStep (createFat32 root (boot disk)) (es.filter PowerEvent.isCall) t ∧
      Unchanged s t ∧ (∀ request, readBack t request = readBack s request) ∧
      ∀ (call : DiskCall) code, (∃ s', call.run s = .ok (code, s')) ↔
        ∃ t', call.run t = .ok (code, t') := by
  have h₀ : Bootable (createFat32 root (boot disk)) :=
    ⟨(createFat32_wellFormed root disk).loose, createFat32_formatted root disk⟩
  obtain ⟨t, ht, hu, -⟩ := calls_of_run h₀ (.refl _) h
  refine ⟨t, ht, hu, hu.readBack_eq, fun call code => ⟨?_, ?_⟩⟩
  · rintro ⟨s', hs⟩
    exact (hu.call hs).imp fun _ h => h.1
  · rintro ⟨t', ht⟩
    exact (hu.symm.call ht).imp fun _ h => h.1

/-- The folder `a` made on a new disk, with the power gone before and after. -/
theorem reboots_transparent_mkdir : ∃ s t,
    Run PowerStep (createFat32 (fun _ => 0) (boot zeroBytes))
      [.reboot (fun _ => 0), .call (.write ⟨zeroBytes, fun _ => 'a'.toUInt8, fun _ => 0, 2, 0⟩) 0,
        .reboot (fun _ => 0)] s ∧
    Run PowerStep (createFat32 (fun _ => 0) (boot zeroBytes))
      [.call (.write ⟨zeroBytes, fun _ => 'a'.toUInt8, fun _ => 0, 2, 0⟩) 0] t ∧
    Unchanged s t := by
  have h₀ : Bootable (createFat32 (fun _ => 0) (boot zeroBytes)) :=
    ⟨(createFat32_wellFormed _ _).loose, createFat32_formatted _ _⟩
  have hfinds : DiskCall.FindsClusters (createFat32 (fun _ => 0) (boot zeroBytes))
      (.write ⟨zeroBytes, fun _ => 'a'.toUInt8, fun _ => 0, 2, 0⟩) := by
    refine fun _ _ _ => ⟨?_, by decide⟩
    rw [← List.length_pos_iff, createFat32_room]
    decide
  obtain ⟨s, i, cs, hs, -, -⟩ := createFat32_written (fun _ => 0) zeroBytes
    ⟨zeroBytes, fun _ => 'a'.toUInt8, fun _ => 0, 2, 0⟩ rfl (by decide)
  have hfirst := reboot_step (fun _ => 0) (createFat32 (fun _ => 0) (boot zeroBytes))
  have hu := h₀.reboot hfirst
  obtain ⟨s₁, hs₁, -⟩ := hu.call (show DiskCall.run _ (.write _) = _ from hs)
  have hstep : PowerStep _ (.call (.write _) 0) s₁ :=
    ⟨(hu.findsClusters_iff _).mpr hfinds, (hu.liveParents_iff (.write _)).mpr reach_root, hs₁⟩
  have hrun := Run.cons hfirst (.cons hstep (.cons (reboot_step (fun _ => 0) s₁) (.nil _)))
  obtain ⟨t, ht, hut, -⟩ := reboots_transparent _ _ hrun
  exact ⟨_, t, hrun, ht, hut⟩

end Doors.Fat32
