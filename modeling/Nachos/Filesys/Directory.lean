import Nachos.Filesys.OpenFile

/-! Directories: tables of names and header sectors, kept in files. -/

namespace Nachos

/-- How many bytes of a name count. -/
abbrev fileNameMaxLen : Nat := 9

/-- Number of entries in a directory. -/
abbrev numDirEntries : Nat := 10

/-- Number of bytes of an entry: the flag, the sector, the name, and the gaps between them. -/
abbrev sizeofDirectoryEntry : Nat := 20

/-- The size of a directory, which leaves the sector in front of the table out. -/
abbrev directoryFileSize : Nat := sizeofDirectoryEntry * numDirEntries

/-- What `strncmp` and `strncpy` take from a C string, up to this many characters. -/
def cString (n : Nat) (characters : List Byte) : List Byte :=
  (characters.take n).takeWhile (· ≠ 0)

/-- The character between the components of a path. -/
abbrev slash : Byte := 47

/-- A directory in memory: its own header sector, and the bytes of its table. -/
structure Directory where
  sector : Int
  table : List Byte

namespace Directory

/-- The flag of an entry. -/
def inUse (dir : Directory) (i : Nat) : Bool := dir.table.getD (sizeofDirectoryEntry * i) 0 ≠ 0

/-- The header sector in an entry. -/
def entrySector (dir : Directory) (i : Nat) : Int := intAt dir.table (sizeofDirectoryEntry * i + 4)

/-- The name in an entry. -/
def entryName (dir : Directory) (i : Nat) : List Byte :=
  cString fileNameMaxLen (dir.table.drop (sizeofDirectoryEntry * i + 8))

/-- Set the flag of an entry. -/
def setInUse (dir : Directory) (i : Nat) (inUse : Bool) : Directory :=
  { dir with
    table := splice 0 dir.table (sizeofDirectoryEntry * i) [if inUse then 1 else 0] }

/-- The constructors: no entry is in use, and the rest of the table is as it was in memory. -/
def new (sector : Int) : Fs Directory := do
  let table ← Fs.allocate directoryFileSize
  return (List.range numDirEntries).foldl (fun dir i => dir.setInUse i false) { sector, table }

/-- The constructor that leaves the sector as it was in memory, too. -/
def newEmpty : Fs Directory := do
  let leftover ← Fs.allocate 4
  new (intAt leftover 0)

/-- `FetchFrom`: read the directory from a file, as far as the file reaches. -/
def fetchFrom (dir : Directory) (file : OpenFile) : Fs Directory := do
  let sector ← file.readAt 4 0
  let table ← file.readAt directoryFileSize 4
  return {
    sector := intAt (splice 0 (intBytes dir.sector) 0 sector) 0
    table := splice 0 dir.table 0 table }

/-- `WriteBack`, with the file as its header has become. -/
def writeBack (dir : Directory) (file : OpenFile) : Fs OpenFile := do
  let (_, file) ← file.writeAt (intBytes dir.sector) 0
  let (_, file) ← file.writeAt dir.table 4
  return file

/-- `FindIndex`: the first entry in use with this name. -/
def findIndex (dir : Directory) (name : List Byte) : Option Nat :=
  (List.range numDirEntries).find? fun i =>
    dir.inUse i && dir.entryName i == cString fileNameMaxLen name

/-- `dirlookup`. -/
def dirlookup (dir : Directory) (name : List Byte) : Int :=
  match dir.findIndex name with
  | some k => dir.entrySector k
  | none => -1

/--
`skipelem`: the first component of a path, cut to what the name buffer holds, and the rest.

There is no result for a path without components.
-/
def skipelem (path : List Byte) : Option (List Byte × List Byte) :=
  let path := path.dropWhile (· = slash)
  if path.headD 0 = 0 then none
  else
    let s := path.takeWhile fun c => c ≠ slash ∧ c ≠ 0
    some (s.take fileNameMaxLen, (path.drop s.length).dropWhile (· = slash))

/-- `namex`, as long as the path has no more components than this. It also gives the last name. -/
def namexWithin : Nat → Directory → List Byte → Bool → Fs (Int × List Byte)
  | 0, _, _, _ => Program.abort
  | more + 1, dir, path, nameparent =>
    match skipelem path with
    -- The code follows the null pointer that it gets for a path without components.
    | none => Program.abort
    | some (name, path) =>
      if path.headD 0 = 0 then
        return (if nameparent then dir.sector else dir.dirlookup name, name)
      else
        let next := dir.dirlookup name
        -- A path that goes on needs this name to be there, whichever of the two is asked for.
        if next = -1 then return (-1, name)
        else do
          let hdr ← FileHeader.fetchFrom next
          if hdr.type ≠ .dir then return (-1, name)
          else
            let nextDirOpenFile ← OpenFile.new next
            let nextDir ← fetchFrom (← newEmpty) nextDirOpenFile
            namexWithin more nextDir path nameparent

/-- `namex`. A path has at least as many characters as components. -/
def namex (dir : Directory) (path : List Byte) (nameparent : Bool) : Fs (Int × List Byte) :=
  namexWithin (path.length + 1) dir path nameparent

/-- `Find`. -/
def find (dir : Directory) (path : List Byte) : Fs Int := do
  let (sector, _) ← dir.namex path false
  return sector

/-- `AddInCurrentDir`, with the directory as it is afterwards. -/
def addInCurrentDir (dir : Directory) (name : List Byte) (newSector : Int) : Option Directory :=
  if (dir.findIndex name).isSome then none
  else
    ((List.range numDirEntries).find? fun i => !dir.inUse i).map fun i =>
      let dir := dir.setInUse i true
      -- The name is cut, and zeros fill its field up.
      let held := cString fileNameMaxLen name
      let padded := held ++ .replicate (fileNameMaxLen - held.length) 0
      let table := splice 0 dir.table (sizeofDirectoryEntry * i + 8) padded
      { dir with table := splice 0 table (sizeofDirectoryEntry * i + 4) (intBytes newSector) }

/-- `RemoveInCurrentDir`, with the directory as it is afterwards. -/
def removeInCurrentDir (dir : Directory) (name : List Byte) : Option Directory :=
  (dir.findIndex name).map fun index => dir.setInUse index false

/-- Change the directory that a path leads into, if it is there and can be changed. -/
def changeParent (dir : Directory) (path : List Byte)
    (change : Directory → List Byte → Option Directory) : Fs Bool := do
  let (psector, name) ← dir.namex path true
  if psector = -1 then return false
  else
    -- The parent is read again from its file, which stays open to be written.
    let pdir ← newEmpty
    let pfile ← OpenFile.new psector
    let pdir ← pdir.fetchFrom pfile
    match change pdir name with
    | some pdir => do
      let _ ← pdir.writeBack pfile
      return true
    | none => return false

/-- `Add`. -/
def add (dir : Directory) (path : List Byte) (newSector : Int) : Fs Bool :=
  dir.changeParent path fun pdir name => pdir.addInCurrentDir name newSector

/-- `Remove`. -/
def remove (dir : Directory) (path : List Byte) : Fs Bool :=
  dir.changeParent path removeInCurrentDir

end Directory

end Nachos
