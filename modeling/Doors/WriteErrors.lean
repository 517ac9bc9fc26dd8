import Doors.FatRuns

/-! When `write` is all or nothing. It checks names and slots before it changes
anything, but not the number of free clusters. -/

namespace Doors.Fat32

open PointerTree FileSystem

variable {Fits : UInt32 → Nat → Prop}

/-- The request got a chain of new clusters of exactly the length it needs. -/
def Stored (s s' : FileSystem) (request : Request) : Prop :=
  ∃ i cs, 2 ≤ i.val ∧ (s.table request.parent i).live = false ∧
    request.names (s'.table request.parent i) = true ∧
    (s'.table request.parent i).filesize = request.bufferSize ∧
    Walk s'.next fatEndOfFile (s'.table request.parent i).clusterNumber cs ∧ cs.Nodup ∧
    cs.length = clustersNeeded request ∧
    ∀ c, s.next c = fatEmptyEntry ∧ s'.next c ≠ fatEmptyEntry ↔ c ∈ cs

/-- The same table of clusters, in memory and on the disk, and the same directories. -/
structure Untouched (s s' : FileSystem) : Prop where
  clusterMap : s'.clusterMap = s.clusterMap
  fat : s'.cluster fatClusterNumber = s.cluster fatClusterNumber
  tables : ∀ d, LiveDir s d → s'.table d = s.table d

/-- `write` stores the whole request or reports an error and changes nothing. -/
def NeverHalf (s : FileSystem) (request : Request) : Prop :=
  ∃ code s', write s request = .ok (code, s') ∧ (code = 0 → Stored s s' request) ∧
    (s.freeClusters.length < clustersNeeded request ∨ code ≠ 0 → Untouched s s')

theorem Untouched.loadDir (s : FileSystem) (d : Nat) : Untouched s (s.loadDir d) :=
  ⟨rfl, rfl, fun _ _ => rfl⟩

theorem Written.stored {s s' : FileSystem} {request : Request} {i : Fin entryCount}
    {cs : List Nat} (h : Written s s' request i cs) : Stored s s' request := by
  have hg := h.grown
  refine ⟨i, cs, hg.slot_range, hg.slot_free, ?_, ?_, ?_, hg.nodup, h.length, fun c => ?_⟩
  · rw [hg.entry_new, FAT32DriverRequest.names_iff]
    exact ⟨rfl, rfl⟩
  · rw [hg.entry_new]
    rfl
  · rw [hg.entry_new]
    exact hg.chain
  · constructor
    · rintro ⟨he, hu⟩
      by_contra hm
      by_cases hc : c < 512
      · exact hu ((hg.next_eq c hc hm).trans he)
      · exact hu (by rw [next, dif_neg hc])
    · exact fun hm => ⟨(hg.fresh c hm).2.2, hg.chain_used hm⟩

section Untaken

variable {s : FileSystem} {request : Request} {i : Fin entryCount}

theorem writeFolder_untaken (hz : request.bufferSize = 0)
    (hn : s.freeClusters.take (clustersWanted request) = []) :
    writeFolder (fillSlot s request i) request i = fillSlot s request i := by
  have hfree : s.freeClusters = [] := by
    rw [clustersWanted, if_pos hz] at hn
    simpa using hn
  have hfind : dataClusters.find? (fun k => (fillSlot s request i).next k = fatEmptyEntry) =
      none := by
    rw [← List.head?_filter]
    exact congrArg List.head? hfree
  rw [writeFolder, hfind]

theorem writeFile_untaken (hz : request.bufferSize ≠ 0)
    (hn : s.freeClusters.take (clustersWanted request) = []) :
    writeFile (fillSlot s request i) request i =
      (fillSlot s request i).setNext 0 fatEndOfFile := by
  have hloop := writeFileLoop_eq request i (clustersWanted request) dataClusters 0 0
    (fillSlot s request i) zero_cons_dataClusters_nodup fun c hc => (mem_dataClusters.mp hc).2
  have hmod : clusterCount request.bufferSize.toNat % 2 ^ 16 = clustersWanted request :=
    (if_neg hz).symm
  have htake : ((dataClusters.filter fun c => (fillSlot s request i).next c = fatEmptyEntry).take
      (clustersWanted request - 0)) = [] := hn
  rw [htake, placeClusters] at hloop
  rw [writeFile, hmod, hloop]

/-- With no cluster to take `write` still fills the slot and returns 0. -/
theorem write_untaken (hw : Formed Fits s) (hp : LiveDir s request.parent)
    (hc : ¬ Clash s request) (hf : firstFree s request.parent = some i)
    (hn : s.freeClusters.take (clustersWanted request) = []) :
    write s request = .ok (0,
      ((if request.bufferSize = 0 then fillSlot s request i
        else (fillSlot s request i).setNext 0 fatEndOfFile).storeDir request.parent).storeFat) := by
  rw [write_some hw hp hc hf]
  by_cases hz : request.bufferSize = 0
  · rw [if_pos hz, if_pos hz, writeFolder_untaken hz hn]
  · rw [if_neg hz, if_neg hz, writeFile_untaken hz hn]

theorem write_live (hw : Formed Fits s) (hp : LiveDir s request.parent)
    (hc : ¬ Clash s request) (hf : firstFree s request.parent = some i) :
    ∃ s', write s request = .ok (0, s') ∧ (s'.table request.parent i).live = true := by
  by_cases hn : s.freeClusters.take (clustersWanted request) = []
  · refine ⟨_, write_untaken hw hp hc hf hn, ?_⟩
    rw [table_stored (hw.dir_range hp).2 (hw.dir_ne_fat hp)]
    have hbuf : (if request.bufferSize = 0 then fillSlot s request i
        else (fillSlot s request i).setNext 0 fatEndOfFile).dirTableBuf =
        (fillSlot s request i).dirTableBuf := by
      split_ifs <;> rfl
    rw [hbuf, fillSlot, dirTableBuf_setEntry, Function.update_self]
    exact uattrNotEmpty_live
  · obtain ⟨s', cs, hs, ht⟩ := write_taken hw hp hc hf hn
    exact ⟨s', hs, ht.grown.liveSlot_new.2⟩

end Untaken

/-- A request that the free clusters cannot hold is half done. -/
theorem not_neverHalf {s : FileSystem} (hw : WellFormed s) {request : Request}
    (hp : LiveDir s request.parent) (hroom : ¬ HasRoom s request) : ¬ NeverHalf s request := by
  rintro ⟨code, s', hs, -, hun⟩
  simp only [HasRoom, Classical.not_imp, not_le] at hroom
  obtain ⟨hc, hf, hn⟩ := hroom
  obtain ⟨i, hi⟩ := Option.ne_none_iff_exists'.mp hf
  obtain ⟨t, ht, hlive⟩ := write_live hw hp hc hi
  rw [hs, Except.ok.injEq, Prod.mk.injEq] at ht
  rw [← ht.2, (hun (.inl hn)).tables _ hp, (firstFree_some hi).2] at hlive
  exact absurd hlive (by decide)

/-- `write` is all or nothing exactly when it has room for what it stores. -/
theorem write_never_half_iff {s : FileSystem} (hw : WellFormed s) {request : Request}
    (hp : LiveDir s request.parent) : NeverHalf s request ↔ HasRoom s request := by
  refine ⟨fun h => ?_, fun hroom => ?_⟩
  · by_contra hroom
    exact not_neverHalf hw hp hroom h
  · by_cases hc : Clash s request
    · exact ⟨1, _, write_clash hw hp hc, by simp, fun _ => .loadDir s _⟩
    · cases hf : firstFree s request.parent with
      | none => exact ⟨-1, _, write_full hw hp hc hf, by simp, fun _ => .loadDir s _⟩
      | some i =>
        have hn := hroom hc (by rw [hf]; exact Option.some_ne_none i)
        obtain ⟨s', cs, hs, hwr⟩ := write_new hw hp hc hf hn
        refine ⟨0, s', hs, fun _ => hwr.stored, ?_⟩
        rintro (h | h)
        · omega
        · exact absurd rfl h

/-- One byte fits on a new disk. -/
theorem write_never_half_iff_byte :
    NeverHalf (createFat32 (fun _ => 0) (boot zeroBytes))
      ⟨fun _ => 7, fun _ => 'a'.toUInt8, fun _ => 0, 2, 1⟩ := by
  refine (write_never_half_iff (createFat32_wellFormed _ _) reach_root).mpr fun _ _ => ?_
  rw [createFat32_room]
  decide

/-- A new disk has 509 free clusters; a file of 510 clusters is reported as stored. -/
theorem write_half : ¬ ∀ (s : FileSystem) (request : Request), WellFormed s →
    LiveDir s request.parent → NeverHalf s request := by
  intro h
  have hw := createFat32_wellFormed (fun _ => 0) zeroBytes
  have hp : LiveDir (createFat32 (fun _ => 0) (boot zeroBytes))
      (⟨zeroBytes, fun _ => 'a'.toUInt8, fun _ => 0, 2, 1044480⟩ : Request).parent := reach_root
  refine not_neverHalf hw hp ?_ (h _ _ hw hp)
  intro hroom
  obtain ⟨i, hi⟩ := firstFree_exists (s := createFat32 (fun _ => 0) (boot zeroBytes)) (p := 2)
    (i := 2) (by decide) (createFat32_dead _ _ (by decide))
  have hn := hroom (fun ⟨j, hj, _⟩ => createFat32_liveSlot _ _ reach_root hj)
    (Option.ne_none_iff_exists'.mpr ⟨i, hi⟩)
  rw [createFat32_room] at hn
  exact absurd hn (by decide)

end Doors.Fat32
