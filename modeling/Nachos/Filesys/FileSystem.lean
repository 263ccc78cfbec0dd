import Nachos.Filesys.Directory

/-! The file system: formatting a disk, and creating, opening and removing files. -/

namespace Nachos

/-- The sector of the header of the root directory. -/
abbrev directorySector : Int := 1

/-- The sector of the header of the pipe. -/
abbrev pipeSector : Int := 2

/-- Number of bytes of the map of free sectors. -/
abbrev freeMapFileSize : Nat := numSectors / 8

/-- Number of bytes of the pipe. -/
abbrev pipeFileSize : Nat := 1024

/-- The file system keeps the map of free sectors and the root directory open. -/
structure FileSystem where
  freeMapFile : OpenFile
  directoryFile : OpenFile

namespace FileSystem

/-- The constructor with `format` set. -/
def format : Fs FileSystem := do
  let freeMap := Bitmap.new numSectors
  let directory ← Directory.new directorySector
  let mapHdr ← FileHeader.new freeMapSector .file
  let dirHdr ← FileHeader.new directorySector .dir
  let pipeHdr ← FileHeader.new pipeSector .pipe
  -- The three headers have fixed sectors, taken before anything is allocated.
  let freeMap ← Fs.ofOption (freeMap.mark freeMapSector)
  let freeMap ← Fs.ofOption (freeMap.mark directorySector)
  let freeMap ← Fs.ofOption (freeMap.mark pipeSector)
  let (mapHdr, freeMap) ← mapHdr.mustAllocate freeMap freeMapFileSize
  let (dirHdr, freeMap) ← dirHdr.mustAllocate freeMap directoryFileSize
  let (pipeHdr, freeMap) ← pipeHdr.mustAllocate freeMap pipeFileSize
  -- The headers have to be on the disk before the files are opened.
  mapHdr.writeBack freeMapSector
  dirHdr.writeBack directorySector
  pipeHdr.writeBack pipeSector
  let freeMapFile ← OpenFile.new freeMapSector
  let directoryFile ← OpenFile.new directorySector
  let freeMapFile ← PersistentBitmap.writeBack freeMap freeMapFile
  let directoryFile ← directory.writeBack directoryFile
  return { freeMapFile, directoryFile }

/-- The constructor with `format` not set. -/
def mount : Fs FileSystem := do
  let freeMapFile ← OpenFile.new freeMapSector
  let directoryFile ← OpenFile.new directorySector
  return { freeMapFile, directoryFile }

/-- The root directory, read from its file. -/
def rootDirectory (fs : FileSystem) : Fs Directory := do
  (← Directory.newEmpty).fetchFrom fs.directoryFile

/-- Set the new file up by its kind, with the result of `Create` and the map that is left. -/
def setUp (hdr : FileHeader) (freeMap : PersistentBitmap) (sector : Int) :
    FileType → Fs (Bool × PersistentBitmap)
  | .dir => do
    let (success, hdr, freeMap) ← hdr.allocate freeMap directoryFileSize
    hdr.writeBack sector
    let newdir ← Directory.new sector
    let newfile ← OpenFile.new sector
    let _ ← newdir.writeBack newfile
    return (success, freeMap)
  | .file => do
    hdr.writeBack sector
    return (true, freeMap)
  -- The code sets no result for any other kind.
  | _ => do
    let success ← Fs.allocate 1
    return (success.getD 0 0 ≠ 0, freeMap)

/-- The part of `Create` that is done once the name is in its directory. -/
def createHeader (fs : FileSystem) (freeMap : PersistentBitmap) (sector : Int) (type : FileType) :
    Fs (Bool × FileSystem) := do
  let hdr ← FileHeader.new sector type
  let (success, freeMap) ← setUp hdr freeMap sector type
  let freeMapFile ← PersistentBitmap.writeBack freeMap fs.freeMapFile
  return (success, { fs with freeMapFile })

/-- `Create`. -/
def create (fs : FileSystem) (name : List Byte) (type : FileType) : Fs (Bool × FileSystem) := do
  let directory ← fs.rootDirectory
  if (← directory.find name) ≠ -1 then return (false, fs)
  else
    let freeMap ← PersistentBitmap.ofFile fs.freeMapFile numSectors
    -- The sector is taken in memory only: a map that is not written back takes nothing.
    let (sector, freeMap) ← Fs.ofOption freeMap.findAndSet
    if sector = -1 then return (false, fs)
    else if ← directory.add name sector then fs.createHeader freeMap sector type
    else return (false, fs)

/-- `Open`. -/
def «open» (fs : FileSystem) (name : List Byte) : Fs (Option OpenFile) := do
  let directory ← fs.rootDirectory
  let sector ← directory.find name
  if sector ≥ 0 then return some (← OpenFile.new sector) else return none

/-- `Remove`. -/
def remove (fs : FileSystem) (name : List Byte) : Fs (Bool × FileSystem) := do
  let directory ← fs.rootDirectory
  let sector ← directory.find name
  if sector = -1 then return (false, fs)
  else
    let fileHdr ← FileHeader.fetchFrom sector
    let freeMap ← PersistentBitmap.ofFile fs.freeMapFile numSectors
    let (_, freeMap) ← fileHdr.deallocate freeMap
    let freeMap ← Fs.ofOption (freeMap.clear sector)
    -- Whether the name could be removed is not looked at.
    let _ ← directory.remove name
    let freeMapFile ← PersistentBitmap.writeBack freeMap fs.freeMapFile
    return (true, { fs with freeMapFile })

/-- `ReadPipe`, with the bytes that it reads. -/
def readPipe : Fs (List Byte) := do
  let pipehdr ← FileHeader.fetchFrom pipeSector
  let pipefile ← OpenFile.new pipeSector
  pipefile.readAt pipehdr.limit 0

/-- `WritePipe`, which does not tell how much it has written. -/
def writePipe (data : List Byte) : Fs Unit := do
  let pipefile ← OpenFile.new pipeSector
  let _ ← pipefile.writeAt data 0

end FileSystem

end Nachos
