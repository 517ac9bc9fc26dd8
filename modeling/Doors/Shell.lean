import Doors.FatDriver

/-! The shell's file commands. A path is cut into rows and resolved against directory
tables read from the disk; the driver is called with the clusters found there. `cat` and
`exec` send the kernel a request for what they found. -/

namespace Doors.Shell

open Fat32

def slash : UInt8 := '/'.toUInt8

def dot : UInt8 := '.'.toUInt8

/-- The rows of `result[16][256]`: those filled, and the empty one behind them. -/
def strsplit (str : List UInt8) (delim : UInt8) : Except Fault (List (List UInt8)) :=
  let rows := str.splitOn delim
  if rows.length ≤ 16 ∧ ∀ row ∈ rows, row.length < 256 then
    .ok (if rows.length < 16 then rows ++ [[]] else rows)
  else .error .outOfBounds

def strcat (dest src : List UInt8) : Except Fault (List UInt8) :=
  if dest.length + src.length < 256 then .ok (dest ++ src) else .error .outOfBounds

def moveBack (c : List UInt8) : List UInt8 :=
  ((c.reverse.dropWhile fun b => b ≠ slash).drop 1).reverse

def toName (row : List UInt8) : Name := fun k => row.getD k 0

def toExt (row : List UInt8) : Ext := fun k => row.getD k 0

def noExt : Ext := fun _ => 0

structure ShellState where
  workDir : Nat
  workDirName : List UInt8

def initial : ShellState := ⟨rootClusterNumber, ['~'.toUInt8]⟩

/-- The first live entry of that name, the parent entry included. -/
def findEntry (t : DirectoryTable) (name : Name) (ext : Ext) : Option FAT32DirectoryEntry :=
  ((slotsFrom 1).find? fun i => (t i).live && ((t i).name = name && (t i).ext = ext)).map t

/-- A directory as `read_clusters` hands it to the shell. -/
def readTable (s : FileSystem) (c : Nat) : DirectoryTable := decodeTable (s.cluster c)

/-- The prompt's path after one row of `cd`. -/
def cdPath (currCluster : Nat) (row path : List UInt8) : Except Fault (List UInt8) :=
  -- `memcmp` over the length of the row takes "." for ".."
  if row.isPrefixOf [dot, dot] then
    .ok (if currCluster ≠ rootClusterNumber then moveBack path else path)
  else do
    let path ← strcat path [slash]
    strcat path row

def cdLoop (s : FileSystem) :
    List (List UInt8) → Nat → List UInt8 → Except Fault (Option (Nat × List UInt8))
  | [], _, _ => .error .outOfBounds
  | row :: rows, currCluster, path =>
    if row = [] then .ok (some (currCluster, path))
    else if 8 < row.length then .ok none
    else match findEntry (readTable s currCluster) (toName row) noExt with
      | none => .ok none
      | some e =>
        if !e.isSubdirectory then .ok none
        else do
          let path ← cdPath currCluster row path
          cdLoop s rows e.clusterNumber path

def cd (state : ShellState) (s : FileSystem) (name : List UInt8) : Except Fault ShellState := do
  let rows ← strsplit name slash
  match ← cdLoop s rows state.workDir state.workDirName with
  | none => return state
  | some (currCluster, path) => return ⟨currCluster, path⟩

/-- Codes: 0 file, 1 folder, 2 not found, 3 invalid path, 4 name too long, 5 extension too long. -/
structure Resolved where
  code : Int
  parentCluster : Nat
  currentCluster : Nat
  filename : Name
  ext : Ext

/-- The folders of the path before the last row. -/
def parentLoop (s : FileSystem) :
    List (List UInt8) → Nat → Except Fault (Option (Nat × List UInt8))
  | row :: next :: rows, parentCluster =>
    if next = [] then .ok (some (parentCluster, row))
    else if 8 < row.length then .ok none
    else match findEntry (readTable s parentCluster) (toName row) noExt with
      | none => .ok none
      | some e =>
        if !e.isSubdirectory then .ok none
        else parentLoop s (next :: rows) e.clusterNumber
  | _, _ => .error .outOfBounds

def getCurrAndParentCluster (s : FileSystem) (path : List UInt8) (parentCluster : Nat) :
    Except Fault Resolved := do
  let rows ← strsplit path slash
  match ← parentLoop s rows parentCluster with
  | none => return ⟨3, parentCluster, 0, toName [], toExt []⟩
  | some (parentCluster, last) =>
    let fileRows ← strsplit last dot
    let name := fileRows.getD 0 []
    let ext := fileRows.getD 1 []
    if 8 < name.length then return ⟨4, parentCluster, 0, toName [], toExt []⟩
    else if 3 < ext.length then return ⟨5, parentCluster, 0, toName [], toExt []⟩
    else match findEntry (readTable s parentCluster) (toName name) (toExt ext) with
      | none => return ⟨2, parentCluster, 0, toName name, toExt ext⟩
      | some e =>
        return ⟨if e.isSubdirectory then 1 else 0, parentCluster, e.clusterNumber, toName name,
          toExt ext⟩

/-- A request with `buffer_size` 0. -/
def request (name : Name) (ext : Ext) (parent : Nat) : Request :=
  ⟨zeroBytes, name, ext, UInt32.ofNat parent, 0⟩

def mkdir (state : ShellState) (s : FileSystem) (name : List UInt8) : Except Fault FileSystem := do
  if 8 < name.length then return s
  else if name.contains dot then return s
  else
    let (_, s) ← write s (request (toName name) noExt state.workDir)
    return s

def rm (state : ShellState) (s : FileSystem) (filename : List UInt8) :
    Except Fault FileSystem := do
  let r ← getCurrAndParentCluster s filename state.workDir
  if r.code ≠ 0 ∧ r.code ≠ 1 then return s
  else
    let (_, s) ← delete s (request r.filename r.ext r.parentCluster)
    return s

def rmRec (state : ShellState) (s : FileSystem) (foldername : List UInt8) :
    Except Fault FileSystem := do
  let r ← getCurrAndParentCluster s foldername state.workDir
  if r.code ≠ 1 then return s
  else
    let (_, s) ← deleteFolderRec s (request r.filename noExt r.parentCluster)
    return s

/-- Where `cp` and `mv` put a file. -/
def fileTarget (src dest : Resolved) : Request :=
  if dest.code = 1 then request src.filename src.ext dest.currentCluster
  else request dest.filename dest.ext dest.parentCluster

def cp (state : ShellState) (s : FileSystem) (src dest : List UInt8) : Except Fault FileSystem := do
  let source ← getCurrAndParentCluster s src state.workDir
  if source.code ≠ 0 then return s
  else
    let target ← getCurrAndParentCluster s dest state.workDir
    if target.code = 3 ∨ target.code = 4 ∨ target.code = 5 then return s
    else
      let srcReq := request source.filename source.ext source.parentCluster
      let (_, s) ← copyFile s srcReq (fileTarget source target)
      return s

/-- Making the folder `req` and filling it from `srcCluster`. -/
def copyInto (s : FileSystem) (req : Request) (srcCluster : Nat) :
    Except Fault (Bool × FileSystem) := do
  let (res, s) ← write s req
  if res ≠ 0 then return (false, s)
  else
    let (destCluster, s) ← getClusterNumber s req
    let (res, s) ← copyFolder clusterMapSize s srcCluster destCluster
    return (res = 0, s)

/-- As `copyInto`; a folder that is not found afterwards is an error here. -/
def copyIntoExisting (s : FileSystem) (req : Request) (srcCluster : Nat) :
    Except Fault (Bool × FileSystem) := do
  let (res, s) ← write s req
  if res ≠ 0 then return (false, s)
  else
    let (newDestCluster, s) ← getClusterNumber s req
    if newDestCluster = 0 then return (false, s)
    else
      let (res, s) ← copyFolder clusterMapSize s srcCluster newDestCluster
      return (res = 0, s)

def cpRec (state : ShellState) (s : FileSystem) (src dest : List UInt8) :
    Except Fault FileSystem := do
  let source ← getCurrAndParentCluster s src state.workDir
  if source.code ≠ 1 then return s
  else
    let target ← getCurrAndParentCluster s dest state.workDir
    if target.code ≠ 1 ∧ target.code ≠ 2 then return s
    else if target.code = 1 then
      let (_, s) ← copyIntoExisting s (request source.filename noExt target.currentCluster)
        source.currentCluster
      return s
    else
      let (_, s) ← copyInto s (request target.filename target.ext target.parentCluster) source.currentCluster
      return s

/-- `mv` of a folder up to the deletion of the source: an old target is removed first. -/
def moveFolder (s : FileSystem) (destReq : Request) (srcCluster : Nat) (isFolder : Bool) :
    Except Fault (Bool × FileSystem) := do
  if isFolder then
    let (res, s) ← deleteFolderRec s destReq
    if res ≠ 0 then return (false, s)
    else copyInto s destReq srcCluster
  else copyInto s destReq srcCluster

def mv (state : ShellState) (s : FileSystem) (src dest : List UInt8) : Except Fault FileSystem := do
  let source ← getCurrAndParentCluster s src state.workDir
  if source.code ≠ 0 ∧ source.code ≠ 1 then return s
  else
    let target ← getCurrAndParentCluster s dest state.workDir
    if target.code = 3 ∨ target.code = 4 ∨ target.code = 5 then return s
    else
      let srcReq := request source.filename source.ext source.parentCluster
      if source.code = 0 then
        let (res, s) ← copyFile s srcReq (fileTarget source target)
        if res ≠ 0 then return s
        else
          let (_, s) ← delete s srcReq
          return s
      else if target.code = 0 then return s
      else
        let (copied, s) ← moveFolder s (request target.filename target.ext target.parentCluster)
          source.currentCluster (target.code = 1)
        if !copied then return s
        else
          let (_, s) ← deleteFolderRec s srcReq
          return s

/-- `puts` stops at a zero byte. -/
def puts (str : Nat → UInt8) (cnt : Nat) : List UInt8 :=
  ((List.range cnt).map str).takeWhile (· ≠ 0)

def catRequest (state : ShellState) (s : FileSystem) (filename : List UInt8) :
    Except Fault (Option Request) := do
  let r ← getCurrAndParentCluster s filename state.workDir
  if r.code ≠ 0 then return none
  else return some ⟨zeroBytes, r.filename, r.ext, UInt32.ofNat r.parentCluster, 2048⟩

/-- What is shown of a file, or `none` where there is a message instead. -/
def cat (state : ShellState) (s : FileSystem) (filename : List UInt8) :
    Except Fault (Option (List UInt8)) := do
  match ← catRequest state s filename with
  | none => return none
  | some req =>
    let (code, buf, _) ← read s req
    if code = 0 then return some (puts buf req.bufferSize.toNat)
    else return none

/-- The request of `exec` has no extension. -/
def execRequest (state : ShellState) (s : FileSystem) (filename : List UInt8) :
    Except Fault (Option (FAT32DriverRequest UInt32)) := do
  let r ← getCurrAndParentCluster s filename state.workDir
  if r.code ≠ 0 then return none
  else return some ⟨0, r.filename, noExt, UInt32.ofNat r.parentCluster, 0x100000⟩

inductive Command
  | cd (name : List UInt8)
  | mkdir (name : List UInt8)
  | rm (filename : List UInt8)
  | rmRec (foldername : List UInt8)
  | cp (src dest : List UInt8)
  | cpRec (src dest : List UInt8)
  | mv (src dest : List UInt8)

def Command.run (state : ShellState) (s : FileSystem) :
    Command → Except Fault (ShellState × FileSystem)
  | .cd name => (Shell.cd state s name).map fun state => (state, s)
  | .mkdir name => (Shell.mkdir state s name).map fun s => (state, s)
  | .rm filename => (Shell.rm state s filename).map fun s => (state, s)
  | .rmRec foldername => (Shell.rmRec state s foldername).map fun s => (state, s)
  | .cp src dest => (Shell.cp state s src dest).map fun s => (state, s)
  | .cpRec src dest => (Shell.cpRec state s src dest).map fun s => (state, s)
  | .mv src dest => (Shell.mv state s src dest).map fun s => (state, s)

end Doors.Shell
