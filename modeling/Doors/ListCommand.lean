import Doors.CommandLine
import Doors.PrintInt
import Doors.TreeRefinement

/-! The command `ls`. It looks at the attributes of an entry as a whole, where the driver tests
single bits; on the entries that the driver writes the two agree. -/

namespace Doors.Shell

open PointerTree Fat32 FileSystem
open PathStore (Node)

/-- A line of `ls`: what it puts at the columns 0, 7, 16, 24 and 33. -/
structure LsLine where
  no : List UInt8
  name : Put
  ext : Put
  kind : Put
  filesize : List UInt8

def lsKind (folder : Bool) : Put :=
  if folder then ⟨text "folder", 6, 0xF⟩ else ⟨text "file", 4, 0xF⟩

def lsLine (e : FAT32DirectoryEntry) (idx : Nat) : LsLine where
  no := printInt (UInt32.ofNat idx)
  name := ⟨List.ofFn e.name, 8, 0xF⟩
  ext := ⟨List.ofFn e.ext, 3, 0xF⟩
  kind := lsKind (e.attr = attrSubdirectory)
  filesize := printInt e.filesize

def lsLoop (t : DirectoryTable) : List (Fin entryCount) → Nat → List LsLine
  | [], _ => []
  | i :: is, idx =>
    if (t i).userAttribute = uattrNotEmpty then lsLine (t i) (idx + 1) :: lsLoop t is (idx + 1)
    else lsLoop t is idx

/-- The heading and the lines below it. -/
def ls (s : FileSystem) (state : ShellState) : List Put × List LsLine :=
  ([⟨text "no     name     ext     type     size\n", 39, 0xF⟩,
    ⟨text "=====================================\n", 39, 0xF⟩],
    lsLoop (readTable s state.workDir) (slotsFrom 2) 0)

/-- An entry as `write` leaves it. -/
def PlainEntry (e : FAT32DirectoryEntry) : Prop :=
  e.userAttribute = uattrNotEmpty ∧ (e.attr = attrSubdirectory ∨ e.attr = 0)

def PlainSlots (s : FileSystem) : Prop :=
  ∀ d i, LiveDir s d → LiveSlot s d i → PlainEntry (s.table d i)

section Entries

variable {s : FileSystem} {e : FAT32DirectoryEntry}

theorem PlainEntry.folder_iff (h : PlainEntry e) :
    e.attr = attrSubdirectory ↔ e.isSubdirectory = true := by
  rw [FAT32DirectoryEntry.isSubdirectory]
  rcases h.2 with ha | ha <;> rw [ha] <;> decide

theorem newEntry_plain (old : FAT32DirectoryEntry) (request : Request) (c : Nat) :
    PlainEntry (newEntry old request (newKind request) c) := by
  refine ⟨rfl, ?_⟩
  by_cases hz : request.bufferSize = 0
  · exact .inl (if_pos hz)
  · exact .inr (if_neg hz)

theorem createFat32_plainSlots (root : Name) (disk : Nat → UInt8) :
    PlainSlots (createFat32 root (boot disk)) :=
  fun _ _ hd hi => absurd hi (createFat32_liveSlot root disk hd)

theorem plainSlots_edit (s s' : FileSystem) (hw : WellFormed s) (hx : PlainSlots s)
    (h : Edit s s') : PlainSlots s' := by
  intro d i hd hi
  cases h with
  | loadDir => exact hx d i hd hi
  | written _ hwr =>
    rcases hwr.grown.liveSlot_cases hw hd hi with ⟨rfl, rfl⟩ | ⟨hd, hi, he, -⟩
    · rw [hwr.grown.entry_new]
      exact newEntry_plain ..
    · rw [he]
      exact hx d i hd hi
  | pruned hp =>
    obtain ⟨hd, -, -, hi, he⟩ := hp.liveSlot_cases hw hd hi
    rw [he]
    exact hx d i hd hi

end Entries

/-- The line of a name and of what it stands for. -/
def shownLine (entry : (Name × Ext) × Node (List UInt8)) (no : Nat) : LsLine where
  no := printInt (UInt32.ofNat no)
  name := ⟨List.ofFn entry.1.1, 8, 0xF⟩
  ext := ⟨List.ofFn entry.1.2, 3, 0xF⟩
  kind := match entry.2 with
    | .folder => lsKind true
    | .file _ => lsKind false
  filesize := match entry.2 with
    | .folder => printInt 0
    | .file bytes => printInt (UInt32.ofNat bytes.length)

section Listing

variable {s : FileSystem} {m : Contents} {state : ShellState} {dir : List (Name × Ext)} {d : Nat}
  {i : Fin entryCount}

theorem lsLoop_eq (t : DirectoryTable) (is : List (Fin entryCount)) (idx : Nat) :
    lsLoop t is idx = ((is.filter fun i => (t i).userAttribute = uattrNotEmpty).zipIdx
      (idx + 1)).map fun x => lsLine (t x.1) x.2 := by
  induction is generalizing idx with
  | nil => rfl
  | cons i is ih => by_cases h : (t i).userAttribute = uattrNotEmpty <;> simp [lsLoop, h, ih]

/-- The slots that `ls` takes are those that the driver takes for used. -/
theorem listed_iff_live (hw : WellFormed s) (hx : PlainSlots s) (hd : LiveDir s d)
    (hi : 2 ≤ i.val) : (s.table d i).userAttribute = uattrNotEmpty ↔ (s.table d i).live = true := by
  cases hl : (s.table d i).live with
  | false =>
    rw [hw.slot_clear hd hi hl]
    decide
  | true => exact iff_of_true (hx d i hd ⟨hi, hl⟩).1 rfl

theorem lsLine_live (hw : WellFormed s) (hx : PlainSlots s) (hd : LiveDir s d)
    (hi : LiveSlot s d i) (no : Nat) : lsLine (s.table d i) no =
      shownLine (entryName (s.table d i), nodeOf s (s.table d i)) no := by
  have hkind := (hx d i hd hi).folder_iff
  rcases hi.kind with hf | hc
  · have hattr : (s.table d i).attr ≠ attrSubdirectory := by simpa [hf.2] using hkind
    simp [lsLine, shownLine, nodeOf, hf.2, entryName, hattr, fileBytes_length hw hd hf]
  · have hsub := (folderChild_eq_some.mp hc).2.1
    simp [lsLine, shownLine, nodeOf, hsub, entryName, hkind.mpr hsub, hw.folder_size hd hc]

/-- The entries of a directory in the order of their slots. -/
def entriesAt (s : FileSystem) (d : Nat) : List ((Name × Ext) × Node (List UInt8)) :=
  (liveSlots s d).map fun i => (entryName (s.table d i), nodeOf s (s.table d i))

theorem ls_lines (hw : WellFormed s) (hx : PlainSlots s) (hd : LiveDir s state.workDir) :
    (ls s state).2 =
      ((entriesAt s state.workDir).zipIdx 1).map fun x => shownLine x.1 x.2 := by
  have hfilter : ((slotsFrom 2).filter fun i =>
      (readTable s state.workDir i).userAttribute = uattrNotEmpty) = liveSlots s state.workDir :=
    List.filter_congr fun i hi =>
      Bool.eq_iff_iff.mpr (decide_eq_true_iff.trans
        (listed_iff_live hw hx hd (mem_slotsFrom.mp hi)))
  rw [ls, lsLoop_eq, hfilter, entriesAt, List.zipIdx_map, List.map_map]
  refine List.map_congr_left fun x hm => ?_
  have hi : LiveSlot s state.workDir x.1 := mem_liveSlots.mp (List.fst_mem_of_mem_zipIdx hm)
  exact lsLine_live hw hx hd hi x.2

theorem entriesAt_names_nodup (hw : WellFormed s) (hd : LiveDir s d) :
    ((entriesAt s d).map Prod.fst).Nodup := by
  rw [entriesAt, List.map_map]
  refine List.Nodup.map_on (fun i hi j hj he => ?_) ((slotsFrom_nodup 2).filter _)
  exact entryName_unique hw hd (mem_liveSlots.mp hi) (mem_liveSlots.mp hj) he

theorem mem_entriesAt (h : Represents s m) (hw : WellFormed s)
    (hd : Fat32.FolderPath s rootClusterNumber dir d) {name : Name × Ext}
    {node : Node (List UInt8)} :
    (name, node) ∈ entriesAt s d ↔ m (dir ++ [name]) = some node := by
  rw [entriesAt, List.mem_map, h.entry]
  constructor
  · rintro ⟨i, hi, he⟩
    obtain ⟨hname, hnode⟩ := Prod.mk.inj he
    exact ⟨d, i, hd, mem_liveSlots.mp hi, hname, hnode⟩
  · rintro ⟨d', i, hd', hi, rfl, rfl⟩
    obtain rfl := folderPath_unique hw hd hd'
    exact ⟨i, mem_liveSlots.mpr hi, rfl⟩

end Listing

end Doors.Shell
