import Nachos.Filesys.OpenFile

/-! `ReadAt` and `WriteAt` with every int that they compute and every place that they touch. -/

namespace Nachos

/-- A computation that ends with nothing when an int overflows or a buffer is left. -/
abbrev CheckedFs (α : Type) : Type := OptionT Fs α

namespace CheckedFs

/-- The result of an operation on ints, if an int can hold it. -/
def int (value : Int) : CheckedFs Int := if InInt value then pure value else failure

/-- Touch so many bytes of a buffer of this size, from a place on. -/
def touch (size place count : Int) : CheckedFs Unit :=
  if 0 ≤ place ∧ place + count ≤ size then pure () else failure

end CheckedFs

namespace OpenFile

open CheckedFs

/-- The loop of `ReadAt`, which reads sector `i` of the file into its place in the buffer. -/
def checkedReadSectors (hdr : FileHeader) (firstSector size : Int) :
    Nat → Int → CheckedFs (List Byte)
  | 0, _ => return []
  | count + 1, i => do
    let offset ← int (i * sectorSize)
    let place ← int ((← int (i - firstSector)) * sectorSize)
    touch size place sectorSize
    let data ← OptionT.lift (Fs.readSector (← OptionT.lift (hdr.byteToSector offset.toNat)))
    return data.toList ++ (← checkedReadSectors hdr firstSector size count (← int (i + 1)))

/-- The part of `ReadAt` that reads the bytes, once there are no more of them than in the file. -/
def checkedCopyAt (file : OpenFile) (numBytes position : Int) : CheckedFs (List Byte) := do
  -- Every sum and difference of the source is checked, in the order in which it is computed.
  let firstSector := position / sectorSize
  let lastSector := (← int ((← int (position + numBytes)) - 1)) / sectorSize
  let numSectors ← int ((← int (1 + lastSector)) - firstSector)
  let size ← int (numSectors * sectorSize)
  let buf ← checkedReadSectors file.hdr firstSector size numSectors.toNat firstSector
  let start ← int (position - (← int (firstSector * sectorSize)))
  touch size start numBytes
  return (buf.drop start.toNat).take numBytes.toNat

/-- `ReadAt`. -/
def checkedReadAt (file : OpenFile) (numBytes position : Int) : CheckedFs (List Byte) :=
  let fileLimit := file.hdr.limit
  if numBytes ≤ 0 ∨ position < 0 ∨ position ≥ fileLimit then return []
  else do
    -- The sum is computed before it is compared, and may not fit.
    if (← int (position + numBytes)) > fileLimit then
      file.checkedCopyAt (← int (fileLimit - position)) position
    else file.checkedCopyAt numBytes position

/-- The loop of `WriteAt`, which writes sector `i` of the file from its place in the buffer. -/
def checkedWriteSectors (hdr : FileHeader) (firstSector size : Int) (buf : List Byte) :
    Nat → Int → CheckedFs Unit
  | 0, _ => return
  | count + 1, i => do
    let offset ← int (i * sectorSize)
    let place ← int ((← int (i - firstSector)) * sectorSize)
    touch size place sectorSize
    let sector ← OptionT.lift (hdr.byteToSector offset.toNat)
    OptionT.lift (Fs.writeSector sector (.ofBytes (buf.drop place.toNat)))
    checkedWriteSectors hdr firstSector size buf count (← int (i + 1))

/-- Read a sector of the file back into its place in the buffer, if that is needed. -/
def checkedReadBack (file : OpenFile) (needed : Prop) [Decidable needed] (buf : List Byte)
    (firstSector size sector : Int) : CheckedFs (List Byte) :=
  if needed then do
    -- The place of the first sector, which is the start of the buffer, comes out as 0.
    let place ← int ((← int (sector - firstSector)) * sectorSize)
    let offset ← int (sector * sectorSize)
    touch size place sectorSize
    return splice 0 buf place.toNat (← file.checkedReadAt sectorSize offset)
  else return buf

/-- The part of `WriteAt` that reads the sectors written in part, and writes them all. -/
def checkedMergeAt (file : OpenFile) (source : List Byte) (numBytes position : Int) :
    CheckedFs Unit := do
  let firstSector := position / sectorSize
  let past ← int (position + numBytes)
  let lastSector := (← int (past - 1)) / sectorSize
  let numSectors ← int ((← int (1 + lastSector)) - firstSector)
  let size ← int (numSectors * sectorSize)
  let buf ← OptionT.lift (Fs.allocate size.toNat)
  let firstStart ← int (firstSector * sectorSize)
  let lastEnd ← int ((← int (lastSector + 1)) * sectorSize)
  let buf ← file.checkedReadBack (¬ position = firstStart) buf firstSector size firstSector
  let buf ← file.checkedReadBack (¬ past = lastEnd ∧ (firstSector ≠ lastSector ∨
    position = firstStart)) buf firstSector size lastSector
  let start ← int (position - firstStart)
  -- The copy of the caller's bytes has to stay inside the buffer.
  touch size start numBytes
  let buf := splice 0 buf start.toNat source
  checkedWriteSectors file.hdr firstSector size buf numSectors.toNat firstSector

/-- The part of `WriteAt` that finds more sectors with the map of free sectors open. -/
def checkedAllocateFrom (file : OpenFile) (past : Int)
    (writeBack : OpenFile → PersistentBitmap → CheckedFs Unit) (freeMapFile : OpenFile) :
    CheckedFs FileHeader := do
  let map := Bitmap.new numSectors
  let freeMap := PersistentBitmap.overlay map
    (← freeMapFile.checkedReadAt (4 * map.map.length : Nat) 0)
  let size ← int (past - file.hdr.capacity)
  let (hdr, freeMap) ← OptionT.lift (file.hdr.mustAllocate freeMap size)
  writeBack freeMapFile freeMap
  return hdr

/-- The part of `WriteAt` that finds more sectors if the file has too few for a write up to `past`. -/
def checkedEnlarge (file : OpenFile) (past : Int)
    (writeBack : OpenFile → PersistentBitmap → CheckedFs Unit) : CheckedFs FileHeader :=
  if past > file.hdr.capacity then do
    file.checkedAllocateFrom past writeBack (← OptionT.lift (new freeMapSector))
  else return file.hdr

/-- `WriteAt` of the first bytes of a buffer, as long as calls nest no deeper than this. -/
def checkedWriteAtNested : Nat → OpenFile → List Byte → Int → Int → CheckedFs (Int × OpenFile)
  | 0, _, _, _, _ => OptionT.lift Program.abort
  | depth + 1, file, source, numBytes, position =>
    if numBytes ≤ 0 ∨ position > file.hdr.limit ∨ position < 0 then return (0, file)
    else do
      let past ← int (position + numBytes)
      let hdr ← file.checkedEnlarge past fun freeMapFile freeMap => do
        let _ ← checkedWriteAtNested depth freeMapFile (PersistentBitmap.bytes freeMap)
          (PersistentBitmap.bytes freeMap).length 0
      let file := { file with hdr := hdr.setFileLimit past }
      OptionT.lift (file.hdr.writeBack file.hdr.selfSector)
      file.checkedMergeAt source numBytes position
      return (numBytes, file)

/-- `WriteAt` of the first `numBytes` bytes of a buffer. -/
def checkedWriteAt (file : OpenFile) (source : List Byte) (numBytes position : Int) :
    CheckedFs (Int × OpenFile) := checkedWriteAtNested 2 file source numBytes position

end OpenFile

end Nachos
