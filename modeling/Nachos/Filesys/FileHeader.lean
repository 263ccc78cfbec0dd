import Nachos.Filesys.Kernel
import Nachos.Lib.Bitmap

/-! File headers: where the bytes of a file are on the disk. -/

namespace Nachos

namespace Sector

/-- The sector that starts with these bytes. -/
def ofBytes (bytes : List Byte) : Sector := .ofFn fun i => bytes.getD i 0

/-- A sector as an array of words. -/
def word (data : Sector) (i : Nat) : Word := wordAt data.toList (4 * i)

/-- A sector as an array of ints. -/
def int (data : Sector) (i : Nat) : Int := intAt data.toList (4 * i)

/-- The sector that starts with these ints. -/
def ofInts (ints : List Int) : Sector := ofBytes (ints.flatMap intBytes)

end Sector

/-- Number of sectors that a header names itself. -/
abbrev numDirect : Nat := 24

/-- Number of sectors that the index sector of a header names. -/
abbrev numInDirect : Nat := 32

/-- The size of the largest file. -/
abbrev maxFileSize : Nat := (numDirect + numInDirect) * sectorSize

/-- The kinds of files. A header on the disk may have any other number in its place. -/
inductive FileType
  | file
  | dir
  | pipe
  | unknown
  | outside (number : Word) (unnamed : 3 < number.toNat)
  deriving DecidableEq

/-- The number of a kind. -/
def FileType.toWord : FileType → Word
  | file => 0
  | dir => 1
  | pipe => 2
  | unknown => 3
  | outside number _ => number

/-- The kind with this number. -/
def FileType.ofWord (number : Word) : FileType :=
  if unnamed : 3 < number.toNat then outside number unnamed
  else if number = 0 then file else if number = 1 then dir else if number = 2 then pipe
  else unknown

/-- A file header. -/
structure FileHeader where
  limit : Int
  capacity : Int
  nsectors : Int
  selfSector : Int
  type : FileType
  createTime : Word
  modifyTime : Word
  -- The direct sectors, and the index sector behind them.
  dataSectors : Vector Int (numDirect + 1)

namespace FileHeader

/-- The header that 32 ints on the disk make up. -/
def ofSector (data : Sector) : FileHeader where
  limit := data.int 0
  capacity := data.int 1
  nsectors := data.int 2
  selfSector := data.int 3
  type := .ofWord (data.word 4)
  createTime := data.word 5
  modifyTime := data.word 6
  dataSectors := .ofFn fun i => data.int (7 + i)

/-- The sector that a header fills. -/
def toSector (hdr : FileHeader) : Sector :=
  .ofInts ([hdr.limit, hdr.capacity, hdr.nsectors, hdr.selfSector, hdr.type.toWord.toInt,
    hdr.createTime.toInt, hdr.modifyTime.toInt] ++ hdr.dataSectors.toList)

/-- The sector number in a slot of the header. -/
def dataSector (hdr : FileHeader) (i : Nat) : Int := hdr.dataSectors.toList.getD i 0

/-- Put a sector number into a slot of the header. -/
def setDataSector (hdr : FileHeader) (i : Nat) (sector : Int) : FileHeader :=
  { hdr with dataSectors := hdr.dataSectors.setIfInBounds i sector }

/-- The constructor for a new file. It leaves the time of the last change as it was in memory. -/
def new (selfSector : Int) (type : FileType) : Fs FileHeader := do
  let createTime ← Fs.totalTicks
  let leftover ← Fs.allocate 4
  return {
    limit := 0
    capacity := 0
    nsectors := 0
    selfSector
    type
    createTime
    modifyTime := wordAt leftover 0
    dataSectors := .replicate _ 0 }

/-- `FetchFrom`. -/
def fetchFrom (sector : Int) : Fs FileHeader := do
  return ofSector (← Fs.readSector sector)

/-- `WriteBack`. -/
def writeBack (hdr : FileHeader) (sector : Int) : Fs Unit := Fs.writeSector sector hdr.toSector

/-- `setFileLimit`, which changes nothing if the position is out of range. -/
def setFileLimit (hdr : FileHeader) (position : Int) : FileHeader :=
  if position < 0 ∨ position > hdr.capacity then hdr else { hdr with limit := position }

/-- Read an index sector. -/
def readIndex (sector : Int) : Fs (List Int) := do
  let data ← Fs.readSector sector
  return (List.range numInDirect).map data.int

/-- `ByteToSector`. -/
def byteToSector (hdr : FileHeader) (offset : Nat) : Fs Int := do
  let n := offset / sectorSize
  if n < numDirect then
    Program.assert (hdr.dataSector n > 0)
    return hdr.dataSector n
  else
    Program.assert (hdr.dataSector numDirect > 0)
    let inDirect ← readIndex (hdr.dataSector numDirect)
    -- An index sector has no entry for a byte past the largest file.
    Program.assert (n - numDirect < numInDirect)
    Program.assert (inDirect.getD (n - numDirect) 0 > 0)
    return inDirect.getD (n - numDirect) 0

/-- The loop of `Allocate` over the direct slots, with the number of sectors still to find. -/
def allocateDirect : List Nat → Nat → FileHeader → Bitmap → Fs (Nat × FileHeader × Bitmap)
  | i :: rest, n + 1, hdr, freeMap => do
    let (sector, freeMap) ← Fs.ofOption freeMap.findAndSet
    Program.assert (sector > 0)
    allocateDirect rest n (hdr.setDataSector i sector) freeMap
  | _, n, hdr, freeMap => return (n, hdr, freeMap)

/-- The loop of `Allocate` over the entries of the index sector. -/
def allocateIndirect : List Nat → Nat → List Int → Bitmap → Fs (Nat × List Int × Bitmap)
  | i :: rest, n + 1, inDirect, freeMap =>
    if inDirect.getD i 0 = 0 then do
      let (sector, freeMap) ← Fs.ofOption freeMap.findAndSet
      Program.assert (sector ≥ 0)
      allocateIndirect rest n (inDirect.set i sector) freeMap
    else allocateIndirect rest (n + 1) inDirect freeMap
  | _, n, inDirect, freeMap => return (n, inDirect, freeMap)

/-- The direct slots past the sectors in use, none if their number reads as a huge unsigned one. -/
def freeDirect (hdr : FileHeader) : List Nat :=
  if hdr.nsectors < 0 then []
  else List.range' hdr.nsectors.toNat (numDirect - hdr.nsectors.toNat)

/-- The header with so many more sectors counted. -/
def grown (hdr : FileHeader) (n : Nat) : FileHeader :=
  { hdr with nsectors := hdr.nsectors + n, capacity := (hdr.nsectors + n) * sectorSize }

/-- The part of `Allocate` that finds an index sector if the file has none yet. -/
def ensureIndex (hdr : FileHeader) (freeMap : Bitmap) : Fs (FileHeader × Bitmap) :=
  if hdr.dataSector numDirect = 0 then do
    let (sector, freeMap) ← Fs.ofOption freeMap.findAndSet
    Program.assert (sector ≥ 0)
    Fs.writeSector sector (.ofInts (.replicate numInDirect 0))
    return (hdr.setDataSector numDirect sector, freeMap)
  else return (hdr, freeMap)

/-- The part of `Allocate` that finds sectors past the direct ones. Are there entries enough? -/
def allocateIndex (hdr : FileHeader) (freeMap : Bitmap) (n : Nat) :
    Fs (Bool × FileHeader × Bitmap) := do
  let (hdr, freeMap) ← hdr.ensureIndex freeMap
  let inDirect ← readIndex (hdr.dataSector numDirect)
  let (n, inDirect, freeMap) ← allocateIndirect (List.range numInDirect) n inDirect freeMap
  if n = 0 then do
    Fs.writeSector (hdr.dataSector numDirect) (.ofInts inDirect)
    return (true, hdr, freeMap)
  else return (false, hdr, freeMap)

/-- `Allocate`: find sectors for so many more bytes. -/
def allocate (hdr : FileHeader) (freeMap : Bitmap) (size : Int) :
    Fs (Bool × FileHeader × Bitmap) :=
  if size = 0 then return (true, hdr, freeMap)
  -- The sum is compared as an unsigned number, so a negative one counts as too large.
  else if size < 0 ∨ size + hdr.capacity > maxFileSize ∨ size + hdr.capacity < 0 then
    return (false, hdr, freeMap)
  else
    let wanted := divRoundUp size.toNat sectorSize
    if freeMap.numClear < wanted then return (false, hdr, freeMap)
    else do
      let (n, hdr, freeMap) ← allocateDirect hdr.freeDirect wanted hdr freeMap
      if n = 0 then return (true, hdr.grown wanted, freeMap)
      else do
        let (enough, hdr, freeMap) ← hdr.allocateIndex freeMap n
        return (enough, if enough then hdr.grown wanted else hdr, freeMap)

/-- `Allocate`, inside an assertion. -/
def mustAllocate (hdr : FileHeader) (freeMap : Bitmap) (size : Int) : Fs (FileHeader × Bitmap) := do
  let (enough, hdr, freeMap) ← hdr.allocate freeMap size
  Program.assert enough
  return (hdr, freeMap)

/-- Give a sector back unless it is free already. -/
def release (freeMap : Bitmap) (sector : Int) : Option Bitmap := do
  if ← freeMap.test sector then freeMap.clear sector else return freeMap

/-- The loop of `Deallocate` over the direct slots in use. -/
def deallocateDirect : List Nat → FileHeader → Bitmap → Option (FileHeader × Bitmap)
  | [], hdr, freeMap => some (hdr, freeMap)
  | i :: rest, hdr, freeMap => do
    if ← freeMap.test (hdr.dataSector i) then
      deallocateDirect rest (hdr.setDataSector i 0) (← freeMap.clear (hdr.dataSector i))
    else deallocateDirect rest hdr freeMap

/-- The direct slots in use. -/
def usedDirect (hdr : FileHeader) : List Nat := List.range (min hdr.nsectors.toNat numDirect)

/-- The part of `Deallocate` that gives back what the index sector names, and then itself. -/
def deallocateIndirect (hdr : FileHeader) (freeMap : Bitmap) : Fs Bitmap :=
  -- A negative number of sectors counts as a large unsigned one.
  if hdr.nsectors > numDirect ∨ hdr.nsectors < 0 then do
    let inDirect ← readIndex (hdr.dataSector numDirect)
    let freeMap ← Fs.ofOption (inDirect.foldlM release freeMap)
    Fs.ofOption (freeMap.clear (hdr.dataSector numDirect))
  else return freeMap

/-- `Deallocate`: give all the sectors of the file back. -/
def deallocate (hdr : FileHeader) (freeMap : Bitmap) : Fs (FileHeader × Bitmap) := do
  let (hdr, freeMap) ← Fs.ofOption (deallocateDirect hdr.usedDirect hdr freeMap)
  let freeMap ← hdr.deallocateIndirect freeMap
  return ({ hdr.setDataSector numDirect 0 with limit := 0, capacity := 0, nsectors := 0 }, freeMap)

end FileHeader

end Nachos
