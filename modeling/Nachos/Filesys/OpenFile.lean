import Nachos.Filesys.FileHeader

/-! Open files, and the map of free sectors that is kept in one of them. -/

namespace Nachos

/-- The sector of the header of the map of free sectors. -/
abbrev freeMapSector : Int := 0

/-- An open file: its header in memory, and where the next read or write starts. -/
structure OpenFile where
  hdr : FileHeader
  seekPosition : Int

namespace OpenFile

/-- The constructor: open the file whose header is at a sector. -/
def new (sector : Int) : Fs OpenFile := do
  return { hdr := ← FileHeader.fetchFrom sector, seekPosition := 0 }

/-- `Seek`. -/
def seek (file : OpenFile) (position : Int) : OpenFile := { file with seekPosition := position }

/-- `Length`. -/
def length (file : OpenFile) : Int := file.hdr.limit

/-- Read so many sectors of the file, from the first one on. -/
def readSectors (hdr : FileHeader) : Nat → Nat → Fs (List Byte)
  | _, 0 => return []
  | firstSector, count + 1 => do
    let data ← Fs.readSector (← hdr.byteToSector (firstSector * sectorSize))
    return data.toList ++ (← readSectors hdr (firstSector + 1) count)

/-- The sum of two ints, which the program must not let overflow. -/
def intSum (x y : Int) : Fs Int := do
  Program.assert (-2 ^ 31 ≤ x + y ∧ x + y < 2 ^ 31)
  return x + y

/-- `ReadAt`, with the bytes that it copies to the caller. -/
def readAt (file : OpenFile) (numBytes position : Int) : Fs (List Byte) := do
  let fileLimit := file.hdr.limit
  if numBytes ≤ 0 ∨ position < 0 ∨ position ≥ fileLimit then return []
  else
    -- The request is cut at the end of the file, and whole sectors are read around what is left.
    let past ← intSum position numBytes
    let numBytes := (if past > fileLimit then fileLimit - position else numBytes).toNat
    let position := position.toNat
    let firstSector := position / sectorSize
    let lastSector := (position + numBytes - 1) / sectorSize
    let buf ← readSectors file.hdr firstSector (1 + lastSector - firstSector)
    -- The caller gets its own bytes only, from the middle of the buffer.
    return (buf.drop (position - firstSector * sectorSize)).take numBytes

/-- Write the bytes of a buffer to so many sectors of the file, from the first one on. -/
def writeSectors (hdr : FileHeader) : Nat → Nat → List Byte → Fs Unit
  | _, 0, _ => return
  | firstSector, count + 1, buf => do
    Fs.writeSector (← hdr.byteToSector (firstSector * sectorSize)) (.ofBytes buf)
    writeSectors hdr (firstSector + 1) count (buf.drop sectorSize)

/-- Read a sector of the file back into the buffer, if that is needed. -/
def readBack (file : OpenFile) (needed : Prop) [Decidable needed] (buf : List Byte)
    (place sector : Nat) : Fs (List Byte) :=
  if needed then do
    return splice 0 buf place (← file.readAt sectorSize (sector * sectorSize : Nat))
  else return buf

/-- The part of `WriteAt` that reads the sectors written in part, and writes them all. -/
def mergeAt (file : OpenFile) (source : List Byte) (position : Nat) : Fs Unit := do
  let past := position + source.length
  let firstSector := position / sectorSize
  let lastSector := (past - 1) / sectorSize
  let numSectors := 1 + lastSector - firstSector
  let firstAligned := position = firstSector * sectorSize
  let lastAligned := past = (lastSector + 1) * sectorSize
  -- The buffer starts out with whatever its memory held.
  let buf ← Fs.allocate (numSectors * sectorSize)
  let buf ← file.readBack (¬ firstAligned) buf 0 firstSector
  -- A write inside one sector that starts past its beginning has read that sector already.
  let buf ← file.readBack (¬ lastAligned ∧ (firstSector ≠ lastSector ∨ firstAligned)) buf
    ((lastSector - firstSector) * sectorSize) lastSector
  -- The caller's bytes go over what was read.
  let buf := splice 0 buf (position - firstSector * sectorSize) source
  writeSectors file.hdr firstSector numSectors buf

/-- The part of `WriteAt` that is done once the file is large enough: header first, then data. -/
def storeAt (file : OpenFile) (source : List Byte) (position : Nat) : Fs Unit := do
  file.hdr.writeBack file.hdr.selfSector
  file.mergeAt source position

end OpenFile

/-- A bitmap that can be kept in a file. -/
abbrev PersistentBitmap : Type := Bitmap

namespace PersistentBitmap

/-- The words of the map as bytes. -/
def bytes (map : PersistentBitmap) : List Byte := map.map.flatMap fun word => leBytes 4 word.toNat

/-- The map with bytes laid over the start of its words. -/
def overlay (map : PersistentBitmap) (read : List Byte) : PersistentBitmap where
  numBits := map.numBits
  -- Words past the end of what was read keep what they had.
  map := (List.range (divRoundUp map.numBits bitsInWord)).map fun i =>
    wordAt (splice 0 map.bytes 0 read) (4 * i)
  words := by simp

/-- `FetchFrom`: read the map from a file, as far as the file reaches. -/
def fetchFrom (map : PersistentBitmap) (file : OpenFile) : Fs PersistentBitmap := do
  return map.overlay (← file.readAt (4 * map.map.length : Nat) 0)

/-- The constructor that reads the map from a file. -/
def ofFile (file : OpenFile) (numItems : Nat) : Fs PersistentBitmap :=
  fetchFrom (Bitmap.new numItems) file

end PersistentBitmap

namespace OpenFile

/-- The part of `WriteAt` that finds more sectors if the file has too few for a write up to `past`. -/
def enlarge (file : OpenFile) (past : Int)
    (writeBack : OpenFile → PersistentBitmap → Fs Unit) : Fs FileHeader :=
  if past > file.hdr.capacity then do
    -- The map is opened anew here: the file system's own copy of its header is not used.
    let freeMapFile ← new freeMapSector
    let freeMap ← PersistentBitmap.fetchFrom (Bitmap.new numSectors) freeMapFile
    let (hdr, freeMap) ← file.hdr.mustAllocate freeMap (past - file.hdr.capacity)
    writeBack freeMapFile freeMap
    return hdr
  else return file.hdr

/--
`WriteAt`, as long as calls nest no deeper than this.

A call that needs more sectors writes the map of free sectors back, which is another call.
-/
def writeAtNested : Nat → OpenFile → List Byte → Int → Fs (Int × OpenFile)
  | 0, _, _, _ => Program.abort
  | depth + 1, file, source, position =>
    if source.length = 0 ∨ position > file.hdr.limit ∨ position < 0 then return (0, file)
    else do
      let past ← intSum position source.length
      let hdr ← file.enlarge past fun freeMapFile freeMap => do
        let _ ← writeAtNested depth freeMapFile freeMap.bytes 0
      -- The file ends where this write ends, also when it was longer before.
      let file := { file with hdr := hdr.setFileLimit past }
      file.storeAt source position.toNat
      return (source.length, file)

/--
`WriteAt`.

The nested call finds the map's own header on the disk. Either that file is large enough for the
map and nothing nests any deeper, or each call makes another one until the stack overflows.
-/
def writeAt (file : OpenFile) (source : List Byte) (position : Int) : Fs (Int × OpenFile) :=
  writeAtNested 2 file source position

/-- `Read`. -/
def read (file : OpenFile) (numBytes : Int) : Fs (List Byte × OpenFile) := do
  let into ← file.readAt numBytes file.seekPosition
  return (into, { file with seekPosition := file.seekPosition + into.length })

/-- `Write`. -/
def write (file : OpenFile) (source : List Byte) : Fs (Int × OpenFile) := do
  let (result, file) ← file.writeAt source file.seekPosition
  return (result, { file with seekPosition := file.seekPosition + result })

end OpenFile

/-- `WriteBack`: write the map to a file, whose header changes with it. -/
def PersistentBitmap.writeBack (map : PersistentBitmap) (file : OpenFile) : Fs OpenFile := do
  let (_, file) ← file.writeAt map.bytes 0
  return file

end Nachos
