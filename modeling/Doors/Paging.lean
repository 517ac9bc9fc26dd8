import Doors.Bitmap
import Mathlib.Logic.Function.Basic
import Mathlib.Tactic.Ring

/-! Page directories and page frames: the state of the paging code and its functions
under the names of the source. The translation caches are left out. -/

namespace Doors.Kernel

abbrev pageFrameSize : UInt32 := 0x400000

abbrev pageFrameMaxCount : Nat := 32

abbrev pageEntryCount : Nat := 1024

instance pageEntryCount_neZero : NeZero pageEntryCount := ⟨by decide⟩

abbrev pagingDirectoryTableMaxCount : Nat := 32

instance pagingDirectoryTableMaxCount_neZero : NeZero pagingDirectoryTableMaxCount :=
  ⟨by decide⟩

abbrev kernelVirtualAddressBase : UInt32 := 0xC0000000

abbrev kernelPageIndex : Fin pageEntryCount := 0x300

structure PageDirectoryEntryFlag where
  presentBit : Bool
  writeBit : Bool
  userSupervisor : Bool
  usePagesize4Mb : Bool
  deriving DecidableEq

structure PageDirectoryEntry where
  flag : PageDirectoryEntryFlag
  lowerAddress : Fin 1024
  deriving DecidableEq

namespace PageDirectoryEntry

def zero : PageDirectoryEntry := ⟨⟨false, false, false, false⟩, 0⟩

/-- Entry `0x300` of `_paging_kernel_page_directory`. -/
def kernel : PageDirectoryEntry := ⟨⟨true, true, false, true⟩, 0⟩

def present (e : PageDirectoryEntry) : Bool := e.flag.presentBit

def userAccessible (e : PageDirectoryEntry) : Bool := e.flag.presentBit && e.flag.userSupervisor

end PageDirectoryEntry

abbrev PageDirectory := Fin pageEntryCount → PageDirectoryEntry

/-- A `struct PageDirectory *`; `wild` is an address at which there is none. -/
inductive PageDirectoryPtr
  | null
  | kernel
  | slot (i : Fin pagingDirectoryTableMaxCount)
  | wild
  deriving DecidableEq

structure PagingState where
  pageFrameMap : Bitmap pageFrameMaxCount
  freePageFrameCount : UInt32
  pageDirectoryList : Fin pagingDirectoryTableMaxCount → PageDirectory
  pageDirectoryUsed : Bitmap pagingDirectoryTableMaxCount
  cr3 : PageDirectoryPtr

/-- `(virtual_addr >> 22) & 0x3FF`. -/
def pageIndex (virtualAddr : UInt32) : Fin pageEntryCount :=
  ⟨(virtualAddr >>> 22 &&& 0x3FF).toNat, by
    have hh : virtualAddr.toNat >>> 22 &&& 1023 ≤ 1023 := Nat.and_le_right
    simp only [UInt32.toNat_and, UInt32.toNat_shiftRight]
    exact Nat.lt_succ_of_le hh⟩

theorem pageIndex_val (virtualAddr : UInt32) :
    (pageIndex virtualAddr).val = virtualAddr.toNat / 2 ^ 22 := by
  have hv := virtualAddr.toNat_lt
  have hh : virtualAddr.toNat >>> 22 &&& 2 ^ 10 - 1 = virtualAddr.toNat / 2 ^ 22 := by
    rw [Nat.and_two_pow_sub_one_eq_mod, Nat.shiftRight_eq_div_pow]
    omega
  simpa [pageIndex] using hh

def PagingState.setEntry (s : PagingState) (dir : Fin pagingDirectoryTableMaxCount)
    (j : Fin pageEntryCount) (e : PageDirectoryEntry) : PagingState :=
  { s with
    pageDirectoryList :=
      Function.update s.pageDirectoryList dir (Function.update (s.pageDirectoryList dir) j e) }

def updatePageDirectoryEntry (s : PagingState) (pageDir : Fin pagingDirectoryTableMaxCount)
    (physicalAddr virtualAddr : UInt32) (flag : PageDirectoryEntryFlag) : PagingState :=
  s.setEntry pageDir (pageIndex virtualAddr) ⟨flag, pageIndex physicalAddr⟩

def requiredPageFrames (amount : UInt32) : UInt32 := (amount + pageFrameSize - 1) / pageFrameSize

def pagingAllocateCheck (s : PagingState) (amount : UInt32) : Bool :=
  requiredPageFrames amount ≤ s.freePageFrameCount

def userFlag : PageDirectoryEntryFlag := ⟨true, true, true, true⟩

def pagingAllocateUserPageFrame (s : PagingState) (pageDir : Fin pagingDirectoryTableMaxCount)
    (virtualAddr : UInt32) : Bool × PagingState :=
  match s.pageFrameMap.firstClear with
  | none => (false, s)
  | some i =>
    (true, updatePageDirectoryEntry
      { s with
        pageFrameMap := Function.update s.pageFrameMap i true
        freePageFrameCount := s.freePageFrameCount - 1 }
      pageDir (UInt32.ofNat i * pageFrameSize) virtualAddr userFlag)

def pagingFreeUserPageFrame (s : PagingState) (pageDir : Fin pagingDirectoryTableMaxCount)
    (virtualAddr : UInt32) : Bool × PagingState :=
  let e := s.pageDirectoryList pageDir (pageIndex virtualAddr)
  if e.present then
    (true, PagingState.setEntry
      { s with
        pageFrameMap := s.pageFrameMap.clearAt e.lowerAddress
        freePageFrameCount := s.freePageFrameCount + 1 }
      pageDir (pageIndex virtualAddr) .zero)
  else (false, s)

def pagingCreateNewPageDirectory (s : PagingState) :
    Option (Fin pagingDirectoryTableMaxCount) × PagingState :=
  match s.pageDirectoryUsed.firstClear with
  | none => (none, s)
  | some i =>
    let s := { s with pageDirectoryUsed := Function.update s.pageDirectoryUsed i true }
    let flag := (s.pageDirectoryList i 0).flag
    let s := s.setEntry i 0
      ⟨{ flag with presentBit := true, writeBit := true, usePagesize4Mb := true }, 0⟩
    (some i, s.setEntry i kernelPageIndex .kernel)

/-- The loop body of `paging_free_page_directory`. -/
def freeDirectoryEntry (pageDir : Fin pagingDirectoryTableMaxCount) (s : PagingState)
    (j : Fin pageEntryCount) : PagingState :=
  if j = kernelPageIndex then s.setEntry pageDir j .zero
  else if (s.pageDirectoryList pageDir j).present then
    (pagingFreeUserPageFrame s pageDir (UInt32.ofNat j <<< 22)).2
  else s

def pagingFreePageDirectory (s : PagingState) (pageDir : PageDirectoryPtr) : Bool × PagingState :=
  match pageDir with
  | .slot i =>
    (true, (List.finRange pageEntryCount).foldl (freeDirectoryEntry i)
      { s with pageDirectoryUsed := Function.update s.pageDirectoryUsed i false })
  | _ => (false, s)

/-- An empty CR3 gives the address of the kernel base. -/
def pagingGetCurrentPageDirectoryAddr (s : PagingState) : PageDirectoryPtr :=
  if s.cr3 = .null then .wild else s.cr3

def pagingUsePageDirectory (s : PagingState) (pageDir : PageDirectoryPtr) : PagingState :=
  { s with cr3 := pageDir }

/-- The frame and directory tables as they are linked, under the kernel's own directory. -/
def PagingState.boot : PagingState where
  pageFrameMap i := i = 0
  freePageFrameCount := 31
  pageDirectoryList _ _ := .zero
  pageDirectoryUsed _ := false
  cr3 := .kernel

end Doors.Kernel
