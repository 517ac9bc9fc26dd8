import Doors.ByteCodec
import Mathlib.Algebra.GroupWithZero.Nat
import Mathlib.Data.Fintype.Pi
import Mathlib.Logic.Function.Basic

/-! The on-disk records of the file system: the allocation table of cluster 1
and the directory tables, with their packed byte layouts. -/

namespace Doors.Fat32

abbrev blockSize : Nat := 512

abbrev clusterBlockCount : Nat := 4

abbrev clusterSize : Nat := blockSize * clusterBlockCount

abbrev clusterMapSize : Nat := 512

abbrev cluster0Value : Nat := 0x0FFFFFF0

abbrev cluster1Value : Nat := 0x0FFFFFFF

abbrev fatEndOfFile : Nat := 0x0FFFFFFF

abbrev fatEmptyEntry : Nat := 0

abbrev fatClusterNumber : Nat := 1

abbrev rootClusterNumber : Nat := 2

def attrSubdirectory : UInt8 := 0b00010000

def uattrNotEmpty : UInt8 := 0b10101010

abbrev entryCount : Nat := 64

instance entryCount_neZero : NeZero entryCount := ⟨by decide⟩

abbrev Name := Fin 8 → UInt8

instance nameLength_neZero : NeZero 8 := ⟨by decide⟩

abbrev Ext := Fin 3 → UInt8

/-- `attr` is the source's `attribute`. -/
structure FAT32DirectoryEntry where
  name : Name
  ext : Ext
  attr : UInt8
  userAttribute : UInt8
  undelete : UInt8
  createTime : UInt16
  createDate : UInt16
  accessDate : UInt16
  clusterHigh : UInt16
  modifiedTime : UInt16
  modifiedDate : UInt16
  clusterLow : UInt16
  filesize : UInt32
  deriving DecidableEq

namespace FAT32DirectoryEntry

def zero : FAT32DirectoryEntry :=
  ⟨fun _ => 0, fun _ => 0, 0, 0, 0, 0, 0, 0, 0, 0, 0, 0, 0⟩

def live (e : FAT32DirectoryEntry) : Bool := e.userAttribute &&& uattrNotEmpty != 0

def isSubdirectory (e : FAT32DirectoryEntry) : Bool := e.attr &&& attrSubdirectory != 0

def clusterNumber (e : FAT32DirectoryEntry) : Nat :=
  (e.clusterHigh.toNat <<< 16) ||| e.clusterLow.toNat

def setCluster (e : FAT32DirectoryEntry) (i : Nat) : FAT32DirectoryEntry :=
  { e with clusterLow := UInt16.ofNat i, clusterHigh := UInt16.ofNat (i >>> 16) }

@[simp] theorem zero_live : zero.live = false := by decide

@[simp] theorem setCluster_live (e : FAT32DirectoryEntry) (i : Nat) :
    (e.setCluster i).live = e.live := rfl

@[simp] theorem setCluster_isSubdirectory (e : FAT32DirectoryEntry) (i : Nat) :
    (e.setCluster i).isSubdirectory = e.isSubdirectory := rfl

theorem setCluster_clusterNumber (e : FAT32DirectoryEntry) {i : Nat} (hi : i < 2 ^ 32) :
    (e.setCluster i).clusterNumber = i := by
  have hl : (UInt16.ofNat i).toNat < 2 ^ 16 := UInt16.toNat_lt _
  simp only [clusterNumber, setCluster]
  rw [← Nat.shiftLeft_add_eq_or_of_lt hl, Nat.shiftLeft_eq, UInt16.toNat_ofNat',
    UInt16.toNat_ofNat', Nat.shiftRight_eq_div_pow]
  omega

def fields : (Name × Ext × UInt8 × UInt8 × UInt8 × UInt16 × UInt16 × UInt16 × UInt16 ×
    UInt16 × UInt16 × UInt16 × UInt32) ≃ FAT32DirectoryEntry where
  toFun := fun (a, b, c, d, e, f, g, h, i, j, k, l, m) => ⟨a, b, c, d, e, f, g, h, i, j, k, l, m⟩
  invFun v := (v.name, v.ext, v.attr, v.userAttribute, v.undelete, v.createTime,
    v.createDate, v.accessDate, v.clusterHigh, v.modifiedTime, v.modifiedDate, v.clusterLow,
    v.filesize)
  left_inv _ := rfl
  right_inv _ := rfl

def codec : Codec FAT32DirectoryEntry :=
  ((Codec.array 8 .u8).seq <| (Codec.array 3 .u8).seq <| Codec.u8.seq <| Codec.u8.seq <|
    Codec.u8.seq <| Codec.u16.seq <| Codec.u16.seq <| Codec.u16.seq <| Codec.u16.seq <|
    Codec.u16.seq <| Codec.u16.seq <| Codec.u16.seq Codec.u32).map fields

end FAT32DirectoryEntry

abbrev DirectoryTable := Fin entryCount → FAT32DirectoryEntry

def directoryTableCodec : Codec DirectoryTable := .array entryCount FAT32DirectoryEntry.codec

abbrev ClusterMap := Fin clusterMapSize → UInt32

def clusterMapCodec : Codec ClusterMap := .array clusterMapSize .u32

example : directoryTableCodec.size = clusterSize ∧ clusterMapCodec.size = clusterSize := by decide

/-- `init_directory_table`: entry 0 is the directory, entry 1 its parent, the rest is cleared.
The caller sets the cluster of entry 0. -/
def initDirectoryTable (dirTable : DirectoryTable) (name : Name) (parentDirCluster : Nat) :
    DirectoryTable :=
  fun i =>
    if i = 0 then
      { dirTable 0 with
        name := name
        attr := attrSubdirectory
        userAttribute := uattrNotEmpty
        undelete := 0 }
    else if i = 1 then
      { (dirTable 1).setCluster parentDirCluster with
        name := fun k => if k = 0 ∨ k = 1 then '.'.toUInt8 else if k = 2 then 0 else (dirTable 1).name k
        attr := attrSubdirectory
        userAttribute := uattrNotEmpty
        undelete := 0 }
    else .zero

end Doors.Fat32
