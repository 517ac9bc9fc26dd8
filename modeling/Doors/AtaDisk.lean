import Doors.FatDriver
import Doors.Run

/-! The disk driver: `disk.c` over the ports of a drive that keeps it waiting for as long as it
likes. To its callers the drive is an array of bytes. -/

namespace Doors.Ata

open Fat32 (blit blockSize blockAddress)

abbrev halfBlockSize : Nat := blockSize / 2

abbrev ataStatusBsy : UInt8 := 0x80

abbrev ataStatusRdy : UInt8 := 0x40

abbrev ataStatusDrq : UInt8 := 0x08

/-- The block the drive is at, how many are left with it, and the next word of it. -/
inductive Transfer
  | idle
  | reading (lba left word : Nat)
  | writing (lba left word : Nat)

def Transfer.pending : Transfer → Bool
  | .idle => false
  | .reading .. | .writing .. => true

/-- An ATA drive in 28-bit PIO mode: its registers and what its status will show. It is busy for
the next `busy` reads of the status; `delays` are the times it takes, one after another. -/
structure Drive where
  disk : Nat → UInt8
  device : UInt8
  sectorCount : UInt8
  lbaLow : UInt8
  lbaMid : UInt8
  lbaHigh : UInt8
  transfer : Transfer
  busy : Nat
  delays : Nat → Nat
  served : Nat

def lowByte (w : UInt16) : UInt8 := UInt8.ofNat w.toNat

def highByte (w : UInt16) : UInt8 := UInt8.ofNat (w.toNat / 256)

/-- A 16-bit word of memory, its low byte first. -/
def loadWord (mem : Nat → UInt8) (k : Nat) : UInt16 :=
  UInt16.ofNat ((mem k).toNat + 256 * (mem (k + 1)).toNat)

def storeWord (mem : Nat → UInt8) (k : Nat) (w : UInt16) : Nat → UInt8 :=
  Function.update (Function.update mem k (lowByte w)) (k + 1) (highByte w)

namespace Drive

def lba (d : Drive) : Nat :=
  (d.device.toNat % 16) * 2 ^ 24 + d.lbaHigh.toNat * 2 ^ 16 + d.lbaMid.toNat * 2 ^ 8 +
    d.lbaLow.toNat

/-- A count of 0 stands for 256. -/
def count (d : Drive) : Nat := if d.sectorCount = 0 then 256 else d.sectorCount.toNat

/-- The drive goes to work. -/
def work (d : Drive) (transfer : Transfer) : Drive :=
  { d with transfer, busy := d.delays d.served, served := d.served + 1 }

def status (d : Drive) : UInt8 :=
  if d.busy ≠ 0 then ataStatusBsy
  else if d.transfer.pending then ataStatusRdy ||| ataStatusDrq
  else ataStatusRdy

def inStatus (d : Drive) : UInt8 × Drive := (d.status, { d with busy := d.busy - 1 })

theorem status_busy {d : Drive} (h : d.busy ≠ 0) : d.status = ataStatusBsy := if_pos h

theorem status_ready {d : Drive} (h : d.busy = 0) :
    d.status &&& ataStatusBsy = 0 ∧ d.status &&& ataStatusRdy ≠ 0 := by
  rw [status, if_neg (not_not.mpr h)]
  split_ifs <;> decide

/-- A busy drive takes no notice of its registers. -/
def out8 (d : Drive) (port : UInt16) (data : UInt8) : Drive :=
  if d.busy ≠ 0 then d
  else if port = 0x1F6 then { d with device := data }
  else if port = 0x1F2 then { d with sectorCount := data }
  else if port = 0x1F3 then { d with lbaLow := data }
  else if port = 0x1F4 then { d with lbaMid := data }
  else if port = 0x1F5 then { d with lbaHigh := data }
  else if port = 0x1F7 ∧ data = 0x20 then d.work (.reading d.lba d.count 0)
  else if port = 0x1F7 ∧ data = 0x30 then d.work (.writing d.lba d.count 0)
  else d

/-- A word of the data register; it is void unless the drive has one. -/
def in16 (d : Drive) : UInt16 × Drive :=
  match d.transfer with
  | .reading lba left word =>
    if d.busy ≠ 0 then (0xFFFF, d)
    else (loadWord d.disk (blockSize * lba + 2 * word),
      if word + 1 < halfBlockSize then { d with transfer := .reading lba left (word + 1) }
      else d.work (if left ≤ 1 then .idle else .reading (lba + 1) (left - 1) 0))
  | _ => (0xFFFF, d)

def out16 (d : Drive) (data : UInt16) : Drive :=
  match d.transfer with
  | .writing lba left word =>
    if d.busy ≠ 0 then d
    else
      let d := { d with disk := storeWord d.disk (blockSize * lba + 2 * word) data }
      if word + 1 < halfBlockSize then { d with transfer := .writing lba left (word + 1) }
      else d.work (if left ≤ 1 then .idle else .writing (lba + 1) (left - 1) 0)
  | _ => d

end Drive

/-- `while (in(0x1F7) & ATA_STATUS_BSY);` -/
def ataBusyWait (d : Drive) : Drive :=
  if d.inStatus.1 &&& ataStatusBsy ≠ 0 then ataBusyWait d.inStatus.2 else d.inStatus.2
termination_by d.busy
decreasing_by exact Nat.sub_one_lt (mt (fun h => (Drive.status_ready h).1) ‹_›)

/-- `while (!(in(0x1F7) & ATA_STATUS_RDY));` -/
def ataDrqWait (d : Drive) : Drive :=
  if d.inStatus.1 &&& ataStatusRdy = 0 then ataDrqWait d.inStatus.2 else d.inStatus.2
termination_by d.busy
decreasing_by exact Nat.sub_one_lt fun h => (Drive.status_ready h).2 ‹_›

def ataCommand (d : Drive) (logicalBlockAddress : UInt32) (blockCount command : UInt8) : Drive :=
  let d := ataBusyWait d
  let d := d.out8 0x1F6 ((0xE0 : UInt8) ||| (logicalBlockAddress >>> 24 &&& 0xF).toUInt8)
  let d := d.out8 0x1F2 blockCount
  let d := d.out8 0x1F3 logicalBlockAddress.toUInt8
  let d := d.out8 0x1F4 (logicalBlockAddress >>> 8).toUInt8
  let d := d.out8 0x1F5 (logicalBlockAddress >>> 16).toUInt8
  d.out8 0x1F7 command

def readWord (i : Nat) (x : Drive × (Nat → UInt8)) (j : Nat) : Drive × (Nat → UInt8) :=
  (x.1.in16.2, storeWord x.2 (2 * (halfBlockSize * i + j)) x.1.in16.1)

def readBlock (x : Drive × (Nat → UInt8)) (i : Nat) : Drive × (Nat → UInt8) :=
  (List.range halfBlockSize).foldl (readWord i) (ataDrqWait (ataBusyWait x.1), x.2)

/-- `ptr` is the memory from the pointer on. -/
def readBlocks (d : Drive) (ptr : Nat → UInt8) (logicalBlockAddress : UInt32)
    (blockCount : UInt8) : Drive × (Nat → UInt8) :=
  (List.range blockCount.toNat).foldl readBlock
    (ataCommand d logicalBlockAddress blockCount 0x20, ptr)

def writeWord (ptr : Nat → UInt8) (i : Nat) (d : Drive) (j : Nat) : Drive :=
  d.out16 (loadWord ptr (2 * (halfBlockSize * i + j)))

def writeBlock (ptr : Nat → UInt8) (d : Drive) (i : Nat) : Drive :=
  (List.range halfBlockSize).foldl (writeWord ptr i) (ataDrqWait (ataBusyWait d))

def writeBlocks (d : Drive) (ptr : Nat → UInt8) (logicalBlockAddress : UInt32)
    (blockCount : UInt8) : Drive :=
  (List.range blockCount.toNat).foldl (writeBlock ptr)
    (ataCommand d logicalBlockAddress blockCount 0x30)

section Waiting

variable {d : Drive}

def Drive.ready (d : Drive) : Drive := { d with busy := 0 }

theorem inStatus_fst (d : Drive) : d.inStatus.1 = d.status := rfl

/-- The wait ends, however long the drive is busy. -/
theorem ataBusyWait_eq (d : Drive) : ataBusyWait d = d.ready := by
  induction hb : d.busy generalizing d with
  | zero =>
    rw [ataBusyWait, inStatus_fst, if_neg (not_not.mpr (Drive.status_ready hb).1), Drive.inStatus,
      hb]
    rfl
  | succ n ih =>
    have hbsy : d.status &&& ataStatusBsy ≠ 0 := by
      rw [Drive.status_busy (by omega)]
      decide
    rw [ataBusyWait, inStatus_fst, if_pos hbsy, ih d.inStatus.2 (by simp [Drive.inStatus, hb])]
    rfl

theorem ataDrqWait_ready (d : Drive) : ataDrqWait d.ready = d.ready := by
  rw [ataDrqWait, inStatus_fst, if_neg (Drive.status_ready (d := d.ready) rfl).2]
  rfl

theorem ataWaits (d : Drive) : ataDrqWait (ataBusyWait d) = d.ready := by
  rw [ataBusyWait_eq, ataDrqWait_ready]

end Waiting

section Words

variable (mem src : Nat → UInt8) (k n : Nat)

theorem toNat_loadWord : (loadWord mem k).toNat = (mem k).toNat + 256 * (mem (k + 1)).toNat := by
  have hlow := (mem k).toNat_lt
  have hhigh := (mem (k + 1)).toNat_lt
  exact UInt16.toNat_ofNat_of_lt' (by
    simp only [UInt16.size]
    omega)

theorem lowByte_loadWord : lowByte (loadWord mem k) = mem k := by
  apply UInt8.toNat.inj
  have hlow := (mem k).toNat_lt
  rw [lowByte, UInt8.toNat_ofNat', toNat_loadWord]
  omega

theorem highByte_loadWord : highByte (loadWord mem k) = mem (k + 1) := by
  apply UInt8.toNat.inj
  have hlow := (mem k).toNat_lt
  have hhigh := (mem (k + 1)).toNat_lt
  rw [highByte, UInt8.toNat_ofNat', toNat_loadWord]
  omega

theorem storeWord_loadWord :
    storeWord mem k (loadWord src n) = blit mem k 2 fun i => src (n + i) := by
  funext x
  rw [storeWord, lowByte_loadWord, highByte_loadWord, blit]
  by_cases h1 : x = k + 1
  · subst h1
    simp
  · by_cases h0 : x = k
    · subst h0
      simp
    · rw [Function.update_of_ne h1, Function.update_of_ne h0, if_neg (by omega)]

theorem blit_nil (off : Nat) : blit mem off 0 src = mem := by
  funext x
  rw [blit, if_neg (by omega)]

theorem blit_append (off m : Nat) :
    blit (blit mem off m src) (off + m) n (fun i => src (m + i)) = blit mem off (m + n) src := by
  funext x
  simp only [blit]
  by_cases h1 : off + m ≤ x ∧ x < off + m + n
  · rw [if_pos h1, if_pos (by omega)]
    congr 1
    omega
  · rw [if_neg h1]
    split_ifs <;> first | rfl | omega

end Words

section Command

variable {d : Drive} {logicalBlockAddress : UInt32} {blockCount : UInt8}

theorem deviceBits : ∀ n < 16, (0xE0 ||| n) % 16 = n := by decide

/-- The four registers hold 28 bits of the address. -/
theorem lba_registers (d : Drive) (a : UInt32)
    (hdevice : d.device = (0xE0 : UInt8) ||| (a >>> 24 &&& 0xF).toUInt8)
    (hlow : d.lbaLow = a.toUInt8) (hmid : d.lbaMid = (a >>> 8).toUInt8)
    (hhigh : d.lbaHigh = (a >>> 16).toUInt8) : d.lba = a.toNat % 2 ^ 28 := by
  have hnibble : (a >>> 24 &&& 0xF).toUInt8.toNat = a.toNat / 2 ^ 24 % 16 := by
    have hand : (a >>> 24 &&& 0xF).toNat = a.toNat / 2 ^ 24 % 16 := by
      rw [UInt32.toNat_and, UInt32.toNat_shiftRight]
      show a.toNat >>> 24 &&& 2 ^ 4 - 1 = _
      rw [Nat.and_two_pow_sub_one_eq_mod, Nat.shiftRight_eq_div_pow]
    rw [UInt32.toNat_toUInt8, hand]
    omega
  have hdev : d.device.toNat % 16 = a.toNat / 2 ^ 24 % 16 := by
    rw [hdevice, UInt8.toNat_or, hnibble]
    exact deviceBits _ (Nat.mod_lt _ (by decide))
  have hm : d.lbaMid.toNat = a.toNat / 2 ^ 8 % 256 := by
    rw [hmid, UInt32.toNat_toUInt8, UInt32.toNat_shiftRight]
    show a.toNat >>> 8 % 256 = _
    rw [Nat.shiftRight_eq_div_pow]
  have hh : d.lbaHigh.toNat = a.toNat / 2 ^ 16 % 256 := by
    rw [hhigh, UInt32.toNat_toUInt8, UInt32.toNat_shiftRight]
    show a.toNat >>> 16 % 256 = _
    rw [Nat.shiftRight_eq_div_pow]
  have hl : d.lbaLow.toNat = a.toNat % 256 := by
    rw [hlow, UInt32.toNat_toUInt8]
  rw [Drive.lba, hdev, hm, hh, hl]
  omega

/-- The state of the registers once the waits of a command are over. -/
def Drive.addressed (d : Drive) (a : UInt32) (blockCount : UInt8) : Drive :=
  { d.ready with
    device := (0xE0 : UInt8) ||| (a >>> 24 &&& 0xF).toUInt8
    sectorCount := blockCount
    lbaLow := a.toUInt8
    lbaMid := (a >>> 8).toUInt8
    lbaHigh := (a >>> 16).toUInt8 }

theorem ataCommand_eq (d : Drive) (a : UInt32) (blockCount command : UInt8) :
    ataCommand d a blockCount command = (d.addressed a blockCount).out8 0x1F7 command := by
  rw [ataCommand, ataBusyWait_eq]
  rfl

theorem count_addressed (hcount : blockCount ≠ 0) :
    (d.addressed logicalBlockAddress blockCount).count = blockCount.toNat := if_neg hcount

theorem lba_addressed :
    (d.addressed logicalBlockAddress blockCount).lba = logicalBlockAddress.toNat % 2 ^ 28 :=
  lba_registers _ _ rfl rfl rfl rfl

end Command

section Blocks

variable {d : Drive} {lba left i n : Nat} {mem ptr : Nat → UInt8}

def Drive.from (d : Drive) (lba : Nat) : Nat → UInt8 := fun k => d.disk (blockSize * lba + k)

theorem in16_reading {word : Nat} (h : d.transfer = .reading lba left word) (hbusy : d.busy = 0) :
    d.in16 = (loadWord d.disk (blockSize * lba + 2 * word),
      if word + 1 < halfBlockSize then { d with transfer := .reading lba left (word + 1) }
      else d.work (if left ≤ 1 then .idle else .reading (lba + 1) (left - 1) 0)) := by
  rw [Drive.in16, h]
  exact if_neg (not_not.mpr hbusy)

/-- The next word of a block goes behind those that were read. -/
theorem store_next (mem src : Nat → UInt8) (i n off : Nat) :
    storeWord (blit mem (blockSize * i) (2 * n) fun k => src (off + k))
      (2 * (halfBlockSize * i + n)) (loadWord src (off + 2 * n)) =
        blit mem (blockSize * i) (2 * (n + 1)) fun k => src (off + k) := by
  have hoff : 2 * (halfBlockSize * i + n) = blockSize * i + 2 * n := by
    simp only [halfBlockSize, blockSize]
    omega
  rw [storeWord_loadWord, hoff]
  simp only [Nat.add_assoc]
  exact blit_append mem (fun k => src (off + k)) 2 (blockSize * i) (2 * n)

def Drive.moved (d : Drive) (transfer : Transfer) : Drive := { d with transfer }

def Drive.next (d : Drive) (left : Nat) (transfer : Transfer) : Drive :=
  d.work (if left ≤ 1 then .idle else transfer)

theorem readWord_eq (hbusy : d.busy = 0) :
    readWord i (d.moved (.reading lba left n), blit mem (blockSize * i) (2 * n) (d.from lba)) n =
      (if n + 1 < halfBlockSize then d.moved (.reading lba left (n + 1))
        else d.next left (.reading (lba + 1) (left - 1) 0),
        blit mem (blockSize * i) (2 * (n + 1)) (d.from lba)) := by
  have hword := in16_reading (d := d.moved (.reading lba left n)) rfl hbusy
  have hstore := store_next mem d.disk i n (blockSize * lba)
  rw [readWord, hword]
  exact Prod.ext rfl hstore

theorem readWords (h : d.transfer = .reading lba left 0) (hbusy : d.busy = 0)
    (hn : n < halfBlockSize) : (List.range n).foldl (readWord i) (d, mem) =
      (d.moved (.reading lba left n), blit mem (blockSize * i) (2 * n) (d.from lba)) := by
  induction n with
  | zero => simp [← h, blit_nil, Drive.moved]
  | succ n ih =>
    rw [List.range_succ, List.foldl_append, ih (by omega), List.foldl_cons, List.foldl_nil,
      readWord_eq hbusy, if_pos hn]

theorem readBlock_eq (h : d.transfer = .reading lba left 0) : readBlock (d, mem) i =
    (d.ready.next left (.reading (lba + 1) (left - 1) 0),
      blit mem (blockSize * i) blockSize (d.from lba)) := by
  -- The last word ends the block, so the drive moves on only behind it.
  rw [readBlock, ataWaits, show halfBlockSize = 255 + 1 from rfl, List.range_succ,
    List.foldl_append, readWords (d := d.ready) h rfl (by decide), List.foldl_cons, List.foldl_nil,
    readWord_eq rfl, if_neg (by decide)]
  rfl

/-- What a transfer has left after `n` of its blocks. -/
def remaining (n left : Nat) (transfer : Transfer) : Transfer :=
  if n < left then transfer else .idle

/-- Block after block lands in memory, and the transfer ends with the last. -/
theorem readBlocks_loop (mem : Nat → UInt8) (h : d.transfer = .reading lba left 0)
    (hleft : 0 < left) (hn : n ≤ left) :
    ∃ d', (List.range n).foldl readBlock (d, mem) =
        (d', blit mem 0 (blockSize * n) (d.from lba)) ∧
      d'.disk = d.disk ∧ d'.transfer = remaining n left (.reading (lba + n) (left - n) 0) := by
  induction n with
  | zero => exact ⟨d, by simp [blit_nil], rfl, by rw [remaining, if_pos hleft]; exact h⟩
  | succ n ih =>
    obtain ⟨d', hloop, hdisk, htransfer⟩ := ih (by omega)
    rw [remaining, if_pos (by omega)] at htransfer
    refine ⟨d'.ready.next (left - n) (.reading (lba + n + 1) (left - n - 1) 0), ?_, hdisk, ?_⟩
    · have hfrom : d'.from (lba + n) = fun k => d.from lba (blockSize * n + k) := by
        funext k
        rw [Drive.from, Drive.from, hdisk, Nat.mul_add, Nat.add_assoc]
      rw [List.range_succ, List.foldl_append, hloop, List.foldl_cons, List.foldl_nil,
        readBlock_eq htransfer, hfrom]
      refine Prod.ext rfl ?_
      have happend := blit_append mem (d.from lba) blockSize 0 (blockSize * n)
      rwa [Nat.zero_add, ← Nat.mul_succ] at happend
    · show (if left - n ≤ 1 then Transfer.idle else _) = remaining _ _ _
      unfold remaining
      split_ifs <;> first | rfl | omega

def bufferFrom (ptr : Nat → UInt8) (i : Nat) : Nat → UInt8 := fun k => ptr (blockSize * i + k)

def Drive.stored (d : Drive) (disk : Nat → UInt8) : Drive := { d with disk }

theorem out16_writing {word : Nat} (h : d.transfer = .writing lba left word) (hbusy : d.busy = 0)
    (w : UInt16) : d.out16 w =
      let d := d.stored (storeWord d.disk (blockSize * lba + 2 * word) w)
      if word + 1 < halfBlockSize then d.moved (.writing lba left (word + 1))
      else d.next left (.writing (lba + 1) (left - 1) 0) := by
  rw [Drive.out16, h]
  exact if_neg (not_not.mpr hbusy)

def Drive.wrote (d : Drive) (ptr : Nat → UInt8) (i lba n : Nat) : Drive :=
  d.stored (blit d.disk (blockSize * lba) (2 * n) (bufferFrom ptr i))

theorem writeWord_eq (hbusy : d.busy = 0) :
    writeWord ptr i ((d.wrote ptr i lba n).moved (.writing lba left n)) n =
      if n + 1 < halfBlockSize then (d.wrote ptr i lba (n + 1)).moved (.writing lba left (n + 1))
      else (d.wrote ptr i lba (n + 1)).next left (.writing (lba + 1) (left - 1) 0) := by
  have hword := out16_writing (d := (d.wrote ptr i lba n).moved (.writing lba left n)) rfl hbusy
    (loadWord ptr (blockSize * i + 2 * n))
  have hpos (x : Nat) : 2 * (halfBlockSize * x + n) = blockSize * x + 2 * n := by
    simp only [halfBlockSize, blockSize]
    omega
  have hstore := store_next d.disk ptr lba n (blockSize * i)
  rw [hpos] at hstore
  have hwrote : ((d.wrote ptr i lba n).moved (.writing lba left n)).stored
      (storeWord ((d.wrote ptr i lba n).moved (.writing lba left n)).disk (blockSize * lba + 2 * n)
        (loadWord ptr (blockSize * i + 2 * n))) =
      (d.wrote ptr i lba (n + 1)).moved (.writing lba left n) :=
    congrArg (fun disk => (d.stored disk).moved (.writing lba left n)) hstore
  rw [writeWord, hpos, hword, hwrote]
  rfl

theorem writeWords (h : d.transfer = .writing lba left 0) (hbusy : d.busy = 0)
    (hn : n < halfBlockSize) : (List.range n).foldl (writeWord ptr i) d =
      (d.wrote ptr i lba n).moved (.writing lba left n) := by
  induction n with
  | zero => simp [← h, blit_nil, Drive.wrote, Drive.moved, Drive.stored]
  | succ n ih =>
    rw [List.range_succ, List.foldl_append, ih (by omega), List.foldl_cons, List.foldl_nil,
      writeWord_eq hbusy]
    exact if_pos hn

theorem writeBlock_eq (h : d.transfer = .writing lba left 0) : writeBlock ptr d i =
    (d.ready.stored (blit d.disk (blockSize * lba) blockSize (bufferFrom ptr i))).next left
      (.writing (lba + 1) (left - 1) 0) := by
  rw [writeBlock, ataWaits, show halfBlockSize = 255 + 1 from rfl, List.range_succ,
    List.foldl_append, writeWords (d := d.ready) h rfl (by decide), List.foldl_cons, List.foldl_nil,
    writeWord_eq rfl]
  rfl

/-- Block after block lands on the disk, and the transfer ends with the last. -/
theorem writeBlocks_loop (ptr : Nat → UInt8) (h : d.transfer = .writing lba left 0)
    (hleft : 0 < left) (hn : n ≤ left) : ∃ d', (List.range n).foldl (writeBlock ptr) d = d' ∧
      d'.disk = blit d.disk (blockSize * lba) (blockSize * n) ptr ∧
      d'.transfer = remaining n left (.writing (lba + n) (left - n) 0) := by
  induction n with
  | zero => exact ⟨d, rfl, by simp [blit_nil], by rw [remaining, if_pos hleft]; exact h⟩
  | succ n ih =>
    obtain ⟨d', hloop, hdisk, htransfer⟩ := ih (by omega)
    rw [remaining, if_pos (by omega)] at htransfer
    refine ⟨(d'.ready.stored (blit d'.disk (blockSize * (lba + n)) blockSize
      (bufferFrom ptr n))).next (left - n) (.writing (lba + n + 1) (left - n - 1) 0), ?_, ?_, ?_⟩
    · rw [List.range_succ, List.foldl_append, hloop, List.foldl_cons, List.foldl_nil,
        writeBlock_eq htransfer]
    · show blit d'.disk (blockSize * (lba + n)) blockSize (bufferFrom ptr n) = _
      rw [hdisk, Nat.mul_add, Nat.mul_succ]
      exact blit_append d.disk ptr blockSize (blockSize * lba) (blockSize * n)
    · show (if left - n ≤ 1 then Transfer.idle else _) = remaining _ _ _
      unfold remaining
      split_ifs <;> first | rfl | omega

end Blocks

inductive BlockCall
  | read (ptr : Nat → UInt8) (logicalBlockAddress : UInt32) (blockCount : UInt8)
  | write (ptr : Nat → UInt8) (logicalBlockAddress : UInt32) (blockCount : UInt8)

/-- The blocks are there, and at least one of them is asked for: a count of 0 asks the drive
for 256. -/
def BlockCall.InRange : BlockCall → Prop
  | .read _ logicalBlockAddress blockCount | .write _ logicalBlockAddress blockCount =>
    blockCount ≠ 0 ∧ logicalBlockAddress.toNat + blockCount.toNat ≤ 2 ^ 28

/-- The memory at the pointer after a call, and the drive. -/
def BlockCall.run (d : Drive) : BlockCall → (Nat → UInt8) × Drive
  | .read ptr logicalBlockAddress blockCount =>
    ((readBlocks d ptr logicalBlockAddress blockCount).2,
      (readBlocks d ptr logicalBlockAddress blockCount).1)
  | .write ptr logicalBlockAddress blockCount =>
    (ptr, writeBlocks d ptr logicalBlockAddress blockCount)

def BlockCall.onArray (disk : Nat → UInt8) : BlockCall → (Nat → UInt8) × (Nat → UInt8)
  | .read ptr logicalBlockAddress blockCount =>
    (blit ptr 0 (blockSize * blockCount.toNat) fun k =>
      disk (blockAddress logicalBlockAddress.toNat + k), disk)
  | .write ptr logicalBlockAddress blockCount =>
    (ptr, Fat32.writeBlocks disk ptr logicalBlockAddress.toNat blockCount.toNat)

inductive DriveStep : Drive → BlockCall × (Nat → UInt8) → Drive → Prop
  | call {d : Drive} {call : BlockCall} (hrange : call.InRange) :
    DriveStep d (call, (call.run d).1) (call.run d).2

inductive ArrayStep : (Nat → UInt8) → BlockCall × (Nat → UInt8) → (Nat → UInt8) → Prop
  | call {disk : Nat → UInt8} {call : BlockCall} :
    ArrayStep disk (call, (call.onArray disk).1) (call.onArray disk).2

section Calls

variable {d d' : Drive} {a : UInt32} {blockCount : UInt8} {ptr : Nat → UInt8}

theorem toNat_pos (hcount : blockCount ≠ 0) : 0 < blockCount.toNat :=
  Nat.pos_of_ne_zero fun h => hcount (UInt8.toNat.inj h)

theorem addressed_started (hcount : blockCount ≠ 0)
    (hrange : a.toNat + blockCount.toNat ≤ 2 ^ 28) :
    (d.addressed a blockCount).lba = a.toNat ∧
      (d.addressed a blockCount).count = blockCount.toNat := by
  have hpos := toNat_pos hcount
  exact ⟨lba_addressed.trans (Nat.mod_eq_of_lt (by omega)), count_addressed hcount⟩

theorem readBlocks_eq (ptr : Nat → UInt8) (hcount : blockCount ≠ 0)
    (hrange : a.toNat + blockCount.toNat ≤ 2 ^ 28) : ∃ d',
    readBlocks d ptr a blockCount = (d', blit ptr 0 (blockSize * blockCount.toNat) fun k =>
      d.disk (blockAddress a.toNat + k)) ∧ d'.disk = d.disk ∧ d'.transfer = .idle := by
  obtain ⟨hlba, hcnt⟩ := addressed_started (d := d) hcount hrange
  have hpos := toNat_pos hcount
  have hstart : ataCommand d a blockCount 0x20 =
      (d.addressed a blockCount).work (.reading a.toNat blockCount.toNat 0) := by
    rw [ataCommand_eq, ← hlba, ← hcnt]
    rfl
  obtain ⟨d', hloop, hdisk, htransfer⟩ := readBlocks_loop ptr (n := blockCount.toNat)
    (d := (d.addressed a blockCount).work (.reading a.toNat blockCount.toNat 0)) rfl hpos le_rfl
  refine ⟨d', ?_, hdisk, ?_⟩
  · rw [readBlocks, hstart, hloop, blockAddress, Nat.mod_eq_of_lt (by omega)]
    rfl
  · rw [htransfer, remaining, if_neg (by omega)]

theorem writeBlocks_eq (ptr : Nat → UInt8) (hcount : blockCount ≠ 0)
    (hrange : a.toNat + blockCount.toNat ≤ 2 ^ 28) :
    (writeBlocks d ptr a blockCount).disk =
      Fat32.writeBlocks d.disk ptr a.toNat blockCount.toNat ∧
    (writeBlocks d ptr a blockCount).transfer = .idle := by
  obtain ⟨hlba, hcnt⟩ := addressed_started (d := d) hcount hrange
  have hpos := toNat_pos hcount
  have hstart : ataCommand d a blockCount 0x30 =
      (d.addressed a blockCount).work (.writing a.toNat blockCount.toNat 0) := by
    rw [ataCommand_eq, ← hlba, ← hcnt]
    rfl
  obtain ⟨d', hloop, hdisk, htransfer⟩ := writeBlocks_loop ptr (n := blockCount.toNat)
    (d := (d.addressed a blockCount).work (.writing a.toNat blockCount.toNat 0)) rfl hpos le_rfl
  rw [writeBlocks, hstart, hloop]
  refine ⟨?_, ?_⟩
  · rw [hdisk, Fat32.writeBlocks, blockAddress, Nat.mod_eq_of_lt (by omega)]
    rfl
  · rw [htransfer, remaining, if_neg (by omega)]

/-- One call of the driver is one call on the array, and leaves the drive idle. -/
theorem call_onArray {call : BlockCall} (hrange : call.InRange) :
    (call.run d).1 = (call.onArray d.disk).1 ∧ (call.run d).2.disk = (call.onArray d.disk).2 ∧
      (call.run d).2.transfer = .idle := by
  cases call with
  | read ptr a blockCount =>
    obtain ⟨d', hread, hdisk, htransfer⟩ := readBlocks_eq (d := d) ptr hrange.1 hrange.2
    simp only [BlockCall.run, BlockCall.onArray, hread]
    exact ⟨trivial, hdisk, htransfer⟩
  | write ptr a blockCount =>
    obtain ⟨hdisk, htransfer⟩ := writeBlocks_eq (d := d) ptr hrange.1 hrange.2
    exact ⟨rfl, hdisk, htransfer⟩

/-- Whatever the drive's delays, every run of calls is a run on an array of bytes: the same
memory after every call, the same disk at the end. -/
theorem drive_is_array {calls : List (BlockCall × (Nat → UInt8))} (h : Run DriveStep d calls d')
    (hidle : d.transfer = .idle) : Run ArrayStep d.disk calls d'.disk ∧ d'.transfer = .idle := by
  induction h with
  | nil => exact ⟨.nil _, hidle⟩
  | cons hstep _ ih =>
    obtain ⟨hrange⟩ := hstep
    obtain ⟨hmem, hdisk, htransfer⟩ := call_onArray hrange
    obtain ⟨hrun, hlast⟩ := ih htransfer
    rw [hdisk] at hrun
    rw [hmem]
    exact ⟨.cons .call hrun, hlast⟩

/-- A blank disk in a drive that takes longer every time. -/
def Drive.blank : Drive :=
  { disk := Fat32.zeroBytes, device := 0, sectorCount := 0, lbaLow := 0, lbaMid := 0, lbaHigh := 0,
    transfer := .idle, busy := 7, delays := fun k => 3 * k, served := 0 }

def BlockCall.answered (d : Drive) (call : BlockCall) : BlockCall × (Nat → UInt8) :=
  (call, (call.run d).1)

/-- The last block there is, written and read again. -/
theorem drive_is_array_lastBlock :
    let write := BlockCall.write (fun k => UInt8.ofNat k) 0x0FFFFFFF 1
    let read := BlockCall.read Fat32.zeroBytes 0x0FFFFFFF 1
    let d := (write.run .blank).2
    Run ArrayStep Fat32.zeroBytes [write.answered .blank, read.answered d] (read.run d).2.disk := by
  intro write read d
  have hrange : (1 : UInt8) ≠ 0 ∧ (0x0FFFFFFF : UInt32).toNat + (1 : UInt8).toNat ≤ 2 ^ 28 := by
    decide
  have hwrite : DriveStep .blank (write.answered .blank) d := .call hrange
  have hread : DriveStep d (read.answered d) (read.run d).2 := .call hrange
  exact (drive_is_array (.cons hwrite (.cons hread (.nil _))) rfl).1

end Calls

section Clusters

variable {d : Drive} {s : Fat32.FileSystem} {mem ptr : Nat → UInt8} {c : Nat}

theorem lba_inRange (hc : c < Fat32.clusterMapSize) :
    Fat32.clusterToLba c + Fat32.clusterBlockCount ≤ 2 ^ 28 ∧
      (UInt32.ofNat (Fat32.clusterToLba c)).toNat = Fat32.clusterToLba c := by
  have hlba : Fat32.clusterToLba c = 4 * c := by
    simp only [Fat32.clusterToLba, Fat32.clusterBlockCount, Fat32.clusterMapSize] at *
    omega
  simp only [Fat32.clusterMapSize, Fat32.clusterBlockCount, hlba] at *
  exact ⟨by omega, UInt32.toNat_ofNat_of_lt' (by simp only [UInt32.size]; omega)⟩

/-- The file system's view of the drive: what it reads is there, what it writes gets there. -/
theorem clusters_onDrive (hdisk : d.disk = s.disk) (hc : c < Fat32.clusterMapSize) :
    (readBlocks d mem (UInt32.ofNat (Fat32.clusterToLba c)) 4).2 = s.readClusters mem 0 c ∧
      (readBlocks d mem (UInt32.ofNat (Fat32.clusterToLba c)) 4).1.disk = s.disk ∧
      (writeBlocks d ptr (UInt32.ofNat (Fat32.clusterToLba c)) 4).disk =
        (s.writeClusters ptr c).disk := by
  obtain ⟨hrange, hlba⟩ := lba_inRange hc
  have hin : (UInt32.ofNat (Fat32.clusterToLba c)).toNat + (4 : UInt8).toNat ≤ 2 ^ 28 := by
    rw [hlba]
    exact hrange
  obtain ⟨d', hread, hkept, -⟩ := readBlocks_eq (d := d) mem (by decide) hin
  obtain ⟨hwritten, -⟩ := writeBlocks_eq (d := d) ptr (by decide) hin
  rw [hread, hwritten, hlba, hdisk, hkept, hdisk]
  exact ⟨rfl, rfl, rfl⟩

end Clusters

end Doors.Ata
