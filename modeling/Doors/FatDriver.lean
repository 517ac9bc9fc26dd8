import Doors.DirectoryLayout

/-! The file-system driver over a byte-addressed disk: cluster transfers, the
shared directory buffer, and the requests, each under the name of the function it
models. Loops over slots recurse on the slots still to visit. Loops that follow
the cluster map and the two recursive functions carry a bound and report when
they outlive it. -/

namespace Doors.Fat32

def blit (mem : Nat → UInt8) (off len : Nat) (src : Nat → UInt8) : Nat → UInt8 :=
  fun k => if off ≤ k ∧ k < off + len then src (k - off) else mem k

/-- What ends a call without a return code. -/
inductive Fault
  | outOfBounds
  | diverges
  deriving DecidableEq

/-- `buf` is the memory from the pointer on; the process loader passes the address itself. -/
structure FAT32DriverRequest (Buf : Type) where
  buf : Buf
  name : Name
  ext : Ext
  parentClusterNumber : UInt32
  bufferSize : UInt32

abbrev Request := FAT32DriverRequest (Nat → UInt8)

namespace FAT32DriverRequest

variable {Buf : Type}

def parent (request : FAT32DriverRequest Buf) : Nat := request.parentClusterNumber.toNat

def matchesName (request : FAT32DriverRequest Buf) (e : FAT32DirectoryEntry) : Bool :=
  e.name = request.name

def matchesExt (request : FAT32DriverRequest Buf) (e : FAT32DirectoryEntry) : Bool :=
  e.ext = request.ext

end FAT32DriverRequest

structure FileSystem where
  clusterMap : ClusterMap
  dirTableBuf : DirectoryTable
  disk : Nat → UInt8

def clusterToLba (cluster : Nat) : Nat := cluster * clusterBlockCount % 2 ^ 32

def blockAddress (lba : Nat) : Nat := blockSize * (lba % 2 ^ 28)

def writeBlocks (disk ptr : Nat → UInt8) (lba blockCount : Nat) : Nat → UInt8 :=
  blit disk (blockAddress lba) (blockSize * blockCount) ptr

abbrev Cluster := Fin clusterSize → UInt8

/-- A cluster as directory table; `dir_table_buf` is filled with it. -/
def decodeTable (b : Cluster) : DirectoryTable :=
  directoryTableCodec.get fun k => if h : k < clusterSize then b ⟨k, h⟩ else 0

namespace FileSystem

def cluster (s : FileSystem) (c : Nat) : Cluster := fun k => s.disk (blockAddress (clusterToLba c) + k)

def readClusters (s : FileSystem) (mem : Nat → UInt8) (idx c : Nat) : Nat → UInt8 :=
  blit mem (clusterSize * idx) clusterSize fun k => s.disk (blockAddress (clusterToLba c) + k)

def writeClusters (s : FileSystem) (ptr : Nat → UInt8) (c : Nat) : FileSystem :=
  { s with disk := writeBlocks s.disk ptr (clusterToLba c) clusterBlockCount }

def loadDir (s : FileSystem) (c : Nat) : FileSystem := { s with dirTableBuf := decodeTable (s.cluster c) }

def storeDir (s : FileSystem) (c : Nat) : FileSystem :=
  s.writeClusters (directoryTableCodec.put s.dirTableBuf) c

/-- `write_clusters(&fat32_driver_state, 1, 1)`: the table is the first cluster of the state. -/
def storeFat (s : FileSystem) : FileSystem :=
  s.writeClusters (clusterMapCodec.put s.clusterMap) fatClusterNumber

def setEntry (s : FileSystem) (i : Fin entryCount) (e : FAT32DirectoryEntry) : FileSystem :=
  { s with dirTableBuf := Function.update s.dirTableBuf i e }

def next (s : FileSystem) (c : Nat) : Nat :=
  if h : c < clusterMapSize then (s.clusterMap ⟨c, h⟩).toNat else 0

def setNext (s : FileSystem) (c v : Nat) : FileSystem :=
  { s with clusterMap := fun k => if k.val = c then UInt32.ofNat v else s.clusterMap k }

def lookup (s : FileSystem) (c : Nat) : Except Fault Nat :=
  if c < clusterMapSize then .ok (s.next c) else .error .outOfBounds

def assign (s : FileSystem) (c v : Nat) : Except Fault FileSystem :=
  if c < clusterMapSize then .ok (s.setNext c v) else .error .outOfBounds

/-- The test that opens every request: a parent that is not marked `END_OF_FILE` is refused. -/
def withParent {α : Type} (s : FileSystem) (parent : Nat) (refused : α) (body : Except Fault α) :
    Except Fault α := do
  if (← s.lookup parent) ≠ fatEndOfFile then return refused
  body

end FileSystem

def slotsFrom (k : Nat) : List (Fin entryCount) := (List.finRange entryCount).drop k

def dataClusters : List Nat := List.range' 3 (clusterMapSize - 3)

def clusterCount (size : Nat) : Nat := size / clusterSize + if size % clusterSize ≠ 0 then 1 else 0

def zeroBytes : Nat → UInt8 := fun _ => 0

open FileSystem

/-- `fs_signature`: text, a new line, zeros up to the closing `Ok`. -/
def fsSignature (k : Nat) : UInt8 :=
  if k = 510 then 'O'.toUInt8
  else if k = 511 then 'k'.toUInt8
  else (("Course          Designed by     Lab Sister ITB  Made with <3    -----------2024\n".toList.getD k
    (Char.ofNat 0)).toUInt8)

def isEmptyStorage (s : FileSystem) : Bool :=
  !(List.range blockSize).all fun k => s.disk (blockAddress 0 + k) == fsSignature k

/-- `create_fat32`. `root` is the eight bytes at the literal `"root"`, whose end lies past it. -/
def createFat32 (root : Name) (s : FileSystem) : FileSystem :=
  let s := { s with disk := writeBlocks s.disk fsSignature 0 1 }
  let s := { s with
    clusterMap := fun k =>
      if k.val = 0 then UInt32.ofNat cluster0Value
      else if k.val = 1 then UInt32.ofNat cluster1Value
      else if k.val = 2 then UInt32.ofNat fatEndOfFile
      else UInt32.ofNat fatEmptyEntry }
  let s := { s with dirTableBuf := initDirectoryTable s.dirTableBuf root 2 }
  let s := s.setEntry 0 ((s.dirTableBuf 0).setCluster 2)
  let s := s.storeDir 2
  s.storeFat

def initializeFilesystemFat32 (root : Name) (s : FileSystem) : FileSystem :=
  if isEmptyStorage s then createFat32 root s
  else { s with clusterMap := clusterMapCodec.get fun k => s.disk (blockAddress (clusterToLba 1) + k) }

def readDirectoryLoop (s : FileSystem) (request : Request) :
    List (Fin entryCount) → Int → Int × (Nat → UInt8)
  | [], code => (code, request.buf)
  | i :: is, code =>
    let e := s.dirTableBuf i
    if !e.live then readDirectoryLoop s request is code
    else if request.matchesName e then
      if e.isSubdirectory then (0, s.readClusters request.buf 0 e.clusterNumber)
      else readDirectoryLoop s request is 1
    else readDirectoryLoop s request is code

def readDirectory (s : FileSystem) (request : Request) :
    Except Fault (Int × (Nat → UInt8) × FileSystem) :=
  s.withParent request.parent (-1, request.buf, s) <|
    if request.bufferSize.toNat ≠ clusterSize then return (-1, request.buf, s)
    else
      let s := s.loadDir request.parent
      let (code, buf) := readDirectoryLoop s request (slotsFrom 1) 2
      return (code, buf, s)

def readChain (s : FileSystem) : Nat → (Nat → UInt8) → Nat → Nat → Except Fault (Nat → UInt8)
  | fuel, mem, idx, c =>
    if c = fatEndOfFile then .ok mem
    else match fuel with
      | 0 => .error .diverges
      | fuel + 1 => do
        let mem := s.readClusters mem idx c
        let c ← s.lookup c
        readChain s fuel mem (idx + 1) c

def readLoop (s : FileSystem) (request : Request) :
    List (Fin entryCount) → Int → Except Fault (Int × (Nat → UInt8))
  | [], code => .ok (code, request.buf)
  | i :: is, code =>
    let e := s.dirTableBuf i
    if !e.live then readLoop s request is code
    else if request.matchesName e then
      if !e.isSubdirectory && request.matchesExt e then
        if request.bufferSize < e.filesize then .ok (-1, request.buf)
        else do
          let buf ← readChain s clusterMapSize request.buf 0 e.clusterNumber
          return (0, buf)
      else readLoop s request is (if e.isSubdirectory then 1 else code)
    else readLoop s request is code

def read (s : FileSystem) (request : Request) : Except Fault (Int × (Nat → UInt8) × FileSystem) :=
  s.withParent request.parent (-1, request.buf, s) do
    let s := s.loadDir request.parent
    let (code, buf) ← readLoop s request (slotsFrom 2) 2
    return (code, buf, s)

/-- The first free slot, or `none` when a live entry has the requested name and extension. -/
def writeScan (t : DirectoryTable) (request : Request) :
    List (Fin entryCount) → Option (Fin entryCount) → Option (Option (Fin entryCount))
  | [], first => some first
  | i :: is, first =>
    if !(t i).live then writeScan t request is (if first = none then some i else first)
    else if request.matchesName (t i) && request.matchesExt (t i) then none
    else writeScan t request is first

def writeFolder (s : FileSystem) (request : Request) (first : Fin entryCount) : FileSystem :=
  match dataClusters.find? (fun i => s.next i = fatEmptyEntry) with
  | none => s
  | some i =>
    let s := s.setEntry first ({ s.dirTableBuf first with attr := attrSubdirectory }.setCluster i)
    let dt := initDirectoryTable (fun _ => .zero) request.name request.parent
    let dt := Function.update dt 0 ((dt 0).setCluster i)
    let s := s.writeClusters (directoryTableCodec.put dt) i
    s.setNext i fatEndOfFile

/-- The file branch: `idx` clusters are written, `curr` is the last of them (0 before the first). -/
def writeFileLoop (request : Request) (first : Fin entryCount) (numOfCluster : Nat) :
    List Nat → Nat → Nat → FileSystem → Nat × FileSystem
  | [], _, curr, s => (curr, s)
  | i :: is, idx, curr, s =>
    if idx < numOfCluster then
      if s.next i = fatEmptyEntry then
        let s :=
          if curr = 0 then
            s.setEntry first ({ s.dirTableBuf first with attr := 0 }.setCluster i)
          else s.setNext curr i
        let s := s.writeClusters (fun k => request.buf (idx * clusterSize + k)) i
        writeFileLoop request first numOfCluster is (idx + 1) i s
      else writeFileLoop request first numOfCluster is idx curr s
    else (curr, s)

def writeFile (s : FileSystem) (request : Request) (first : Fin entryCount) : FileSystem :=
  let numOfCluster := clusterCount request.bufferSize.toNat % 2 ^ 16
  let (curr, s) := writeFileLoop request first numOfCluster dataClusters 0 0 s
  s.setNext curr fatEndOfFile

def write (s : FileSystem) (request : Request) : Except Fault (Int × FileSystem) :=
  s.withParent request.parent (2, s) <|
    let s := s.loadDir request.parent
    match writeScan s.dirTableBuf request (slotsFrom 2) none with
    | none => return (1, s)
    | some none => return (-1, s)
    | some (some first) =>
      let s := s.setEntry first { s.dirTableBuf first with
        filesize := request.bufferSize
        userAttribute := uattrNotEmpty
        name := request.name
        ext := request.ext }
      let s := if request.bufferSize = 0 then writeFolder s request first
        else writeFile s request first
      let s := s.storeDir request.parent
      return (0, s.storeFat)

def freeChain : Nat → FileSystem → Nat → Except Fault FileSystem
  | fuel, s, c =>
    if c = fatEndOfFile then .ok s
    else match fuel with
      | 0 => .error .diverges
      | fuel + 1 => do
        let s := s.writeClusters zeroBytes c
        let temp ← s.lookup c
        let s ← s.assign c fatEmptyEntry
        freeChain fuel s temp

def recDeleteLoop (recDelete : FileSystem → Nat → Except Fault FileSystem) (dirCluster : Nat) :
    List (Fin entryCount) → FileSystem → Except Fault FileSystem
  | [], s => .ok s
  | i :: is, s => do
    let e := s.dirTableBuf i
    if !e.live then recDeleteLoop recDelete dirCluster is s
    else if e.isSubdirectory then do
      let s ← recDelete s e.clusterNumber
      recDeleteLoop recDelete dirCluster is (s.loadDir dirCluster)
    else do
      let s ← freeChain clusterMapSize s e.clusterNumber
      recDeleteLoop recDelete dirCluster is s

def recDelete : Nat → FileSystem → Nat → Except Fault FileSystem
  | 0, _, _ => .error .diverges
  | fuel + 1, s, dirCluster => do
    let s ← recDeleteLoop (recDelete fuel) dirCluster (slotsFrom 2) (s.loadDir dirCluster)
    let s := s.writeClusters zeroBytes dirCluster
    s.assign dirCluster fatEmptyEntry

def clearSlot (s : FileSystem) (parent : Nat) (i : Fin entryCount) : FileSystem :=
  (((s.loadDir parent).setEntry i .zero).storeDir parent).storeFat

def deleteFolderRecLoop (request : Request) :
    List (Fin entryCount) → Int → FileSystem → Except Fault (Int × FileSystem)
  | [], code, s => .ok (code, s)
  | i :: is, code, s =>
    let e := s.dirTableBuf i
    if !e.live then deleteFolderRecLoop request is code s
    else if request.matchesName e && request.matchesExt e then
      if e.isSubdirectory then do
        let s ← recDelete clusterMapSize s e.clusterNumber
        return (0, clearSlot s request.parent i)
      else deleteFolderRecLoop request is 1 s
    else deleteFolderRecLoop request is code s

def deleteFolderRec (s : FileSystem) (request : Request) : Except Fault (Int × FileSystem) :=
  s.withParent request.parent (-1, s) <|
    deleteFolderRecLoop request (slotsFrom 2) 2 (s.loadDir request.parent)

def deleteLoop (request : Request) :
    List (Fin entryCount) → FileSystem → Except Fault (Int × FileSystem)
  | [], s => .ok (1, s)
  | i :: is, s =>
    let e := s.dirTableBuf i
    if !e.live then deleteLoop request is s
    else if request.matchesName e && request.matchesExt e then
      if e.isSubdirectory then
        let folderTable := decodeTable (s.cluster e.clusterNumber)
        if (slotsFrom 2).any fun j => (folderTable j).live then return (2, s)
        else do
          let s := s.writeClusters zeroBytes e.clusterNumber
          let s ← s.assign e.clusterNumber fatEmptyEntry
          return (0, clearSlot s request.parent i)
      else do
        let s ← freeChain clusterMapSize s e.clusterNumber
        return (0, clearSlot s request.parent i)
    else deleteLoop request is s

def delete (s : FileSystem) (request : Request) : Except Fault (Int × FileSystem) :=
  s.withParent request.parent (-1, s) <|
    deleteLoop request (slotsFrom 2) (s.loadDir request.parent)

def searchFileLoop (s : FileSystem) (request : Request) : List (Fin entryCount) → Int → Int
  | [], code => code
  | i :: is, code =>
    let e := s.dirTableBuf i
    if !e.live then searchFileLoop s request is code
    else if request.matchesName e then
      if !e.isSubdirectory && request.matchesExt e then 0
      else searchFileLoop s request is 1
    else searchFileLoop s request is code

def searchFile (s : FileSystem) (request : Request) : Except Fault (Int × FileSystem) :=
  s.withParent request.parent (-1, s) <|
    let s := s.loadDir request.parent
    return (searchFileLoop s request (slotsFrom 2) 2, s)

def getClusterNumber (s : FileSystem) (request : Request) : Except Fault (Nat × FileSystem) :=
  s.withParent request.parent (0, s) <|
    let s := s.loadDir request.parent
    match (slotsFrom 2).find? fun i => (s.dirTableBuf i).live &&
        request.matchesName (s.dirTableBuf i) && (s.dirTableBuf i).isSubdirectory with
    | none => return (0, s)
    | some i => return ((s.dirTableBuf i).clusterNumber, s)

def copyFolderLoop (copyFolder : FileSystem → Nat → Nat → Except Fault (Int × FileSystem))
    (srcCluster destCluster : Nat) :
    List (Fin entryCount) → FileSystem → Except Fault (Int × FileSystem)
  | [], s => .ok (0, s)
  | i :: is, s => do
    let e := s.dirTableBuf i
    if !e.live then copyFolderLoop copyFolder srcCluster destCluster is s
    else if e.isSubdirectory then do
      let req : Request := ⟨zeroBytes, e.name, fun _ => 0, UInt32.ofNat destCluster, 0⟩
      let (_, s) ← write s req
      let (currDestCluster, s) ← getClusterNumber s req
      let (_, s) ← copyFolder s e.clusterNumber currDestCluster
      copyFolderLoop copyFolder srcCluster destCluster is (s.loadDir srcCluster)
    else do
      let buf ← readChain s clusterMapSize zeroBytes 0 e.clusterNumber
      let (_, s) ← write s ⟨buf, e.name, e.ext, UInt32.ofNat destCluster, e.filesize⟩
      copyFolderLoop copyFolder srcCluster destCluster is (s.loadDir srcCluster)

def copyFolder : Nat → FileSystem → Nat → Nat → Except Fault (Int × FileSystem)
  | 0, _, _, _ => .error .diverges
  | fuel + 1, s, srcCluster, destCluster =>
    s.withParent srcCluster (-1, s) <|
      copyFolderLoop (copyFolder fuel) srcCluster destCluster (slotsFrom 2) (s.loadDir srcCluster)

def findFile (s : FileSystem) (request : Request) : Option (Fin entryCount) :=
  (slotsFrom 2).find? fun i => (s.dirTableBuf i).live && request.matchesName (s.dirTableBuf i) &&
    (!(s.dirTableBuf i).isSubdirectory && request.matchesExt (s.dirTableBuf i))

def copyFile (s : FileSystem) (src dest : Request) : Except Fault (Int × FileSystem) :=
  s.withParent src.parent (-1, s) <|
    let s := s.loadDir src.parent
    match findFile s src with
    | none => return (1, s)
    | some i =>
      let e := s.dirTableBuf i
      if e.clusterNumber = 0 then return (1, s)
      else do
        let buf ← readChain s clusterMapSize zeroBytes 0 e.clusterNumber
        let s := s.loadDir dest.parent
        let req : Request := ⟨buf, dest.name, dest.ext, dest.parentClusterNumber, e.filesize⟩
        match findFile s dest with
        | none => write s req
        | some _ => do
          let (_, s) ← delete s req
          write s req

end Doors.Fat32
