import Nachos.Userprog.AddrSpace

/-! The converter that turns a COFF object file into the NOFF file that the kernel runs. -/

namespace Nachos

/-- The magic number of a COFF file for a little-endian MIPS. -/
abbrev mipselMagic : Nat := 0x0162

/-- The magic number of the system header in a file without shared text. -/
abbrev omagic : Nat := 0o407

/-- Number of bytes in the file header, which comes first. -/
abbrev sizeofFileHdr : Nat := 20

/-- Number of bytes in the system header, which comes next. -/
abbrev sizeofAoutHdr : Nat := 56

/-- Number of bytes in one section header. -/
abbrev sizeofScnHdr : Nat := 40

/-- The unsigned short at an offset of a record that lies in memory. -/
def shortAt (bytes : List Byte) (offset : Nat) : Nat := leNat ((bytes.drop offset).take 2)

/-- What the converter uses of a section header. -/
structure ScnHdr where
  name : List Byte
  paddr : Int
  size : Int
  scnptr : Int
  deriving DecidableEq

/-- Read a section header. The name ends at its first zero, if it has one. -/
def ScnHdr.ofBytes (bytes : List Byte) : ScnHdr where
  name := (bytes.take 8).takeWhile (· ≠ 0)
  paddr := intAt bytes 8
  size := intAt bytes 16
  scnptr := intAt bytes 20

/-- The section header at an index of the table of them. -/
def ScnHdr.ofTable (table : List Byte) (i : Nat) : ScnHdr :=
  .ofBytes ((table.drop (i * sizeofScnHdr)).take sizeofScnHdr)

/-- The section name `.text`. -/
def textName : List Byte := [0x2e, 0x74, 0x65, 0x78, 0x74]

/-- The section name `.data`. -/
def dataName : List Byte := [0x2e, 0x64, 0x61, 0x74, 0x61]

/-- The section name `.rdata`. -/
def rdataName : List Byte := [0x2e, 0x72, 0x64, 0x61, 0x74, 0x61]

/-- The section name `.bss`. -/
def bssName : List Byte := [0x2e, 0x62, 0x73, 0x73]

/-- Where a segment goes in memory, and where it is in the NOFF file. -/
structure Segment where
  virtualAddr : Int
  inFileAddr : Int
  size : Int
  deriving DecidableEq

/-- The bytes of a segment's entry in the header. -/
def Segment.toBytes (segment : Segment) : List Byte :=
  intBytes segment.virtualAddr ++ intBytes segment.inFileAddr ++ intBytes segment.size

/-- The segments of a NOFF header, in the order in which the header has them. -/
structure NoffLayout where
  code : Segment
  initData : Segment
  readonlyData : Segment
  uninitData : Segment
  deriving DecidableEq

namespace NoffLayout

/-- The bytes of the header. The host is little-endian, so `SwapHeader` has nothing to do. -/
def toBytes (layout : NoffLayout) : List Byte :=
  intBytes noffMagic.toInt ++ layout.code.toBytes ++ layout.initData.toBytes ++
    layout.readonlyData.toBytes ++ layout.uninitData.toBytes

/-- The header before the first section: no segment has a size, and the rest is not set. -/
def cleared (uninitialised : NoffLayout) : NoffLayout where
  code := { uninitialised.code with size := 0 }
  initData := { uninitialised.initData with size := 0 }
  readonlyData := { uninitialised.readonlyData with size := 0 }
  uninitData := { uninitialised.uninitData with size := 0 }

end NoffLayout

/-- A NOFF file: the header, and the segments that are in the file. -/
structure NoffFile where
  layout : NoffLayout
  segments : List Byte
  deriving DecidableEq

/-- The bytes of the file. -/
def NoffFile.toBytes (noff : NoffFile) : List Byte := noff.layout.toBytes ++ noff.segments

/-- `Read`: nothing stands for the exit of a program whose file is too short. -/
def readBytes (coff : List Byte) (position : Nat) (nBytes : Int) : Option (List Byte) :=
  let bytes := (coff.drop position).take nBytes.toNat
  -- To read a negative number of bytes is an error, which is answered by -1.
  let count : Int := if nBytes < 0 then -1 else bytes.length
  if count = nBytes then some bytes else none

/-- The converter in its loop: how far it has read, and the file that it has made so far. -/
structure Converter where
  position : Nat
  layout : NoffLayout
  inNoffFile : Int
  written : List Byte

namespace Converter

/-- Copy the contents of a section into the NOFF file. -/
def copySegment (coff : List Byte) (converter : Converter) (header : ScnHdr) :
    Option (Segment × Converter) := do
  -- A seek to a negative position fails, and its answer is not looked at.
  let position := if header.scnptr < 0 then converter.position else header.scnptr.toNat
  let buffer ← readBytes coff position header.size
  let segment := ⟨header.paddr, converter.inNoffFile, header.size⟩
  return (segment, { converter with
    position := position + buffer.length
    inNoffFile := converter.inNoffFile + header.size
    written := converter.written ++ buffer })

/-- Add a section without contents to the uninitialised data. The sums are ints. -/
def addUninit (converter : Converter) (header : ScnHdr) : Option Converter :=
  let uninit := converter.layout.uninitData
  if uninit.size ≠ 0 then
    -- The test is meant to find sections that are not contiguous.
    if header.paddr = (uninit.virtualAddr + uninit.size).bmod (2 ^ 32) then none
    else
      let grown := { uninit with size := (uninit.size + header.size).bmod (2 ^ 32) }
      some { converter with layout := { converter.layout with uninitData := grown } }
  else
    let placed := { uninit with virtualAddr := header.paddr, size := header.size }
    some { converter with layout := { converter.layout with uninitData := placed } }

/-- One turn of the loop over the sections. -/
def addSection (coff : List Byte) (converter : Converter) (header : ScnHdr) : Option Converter :=
  if header.size = 0 then some converter
  else if header.name = textName then do
    let (code, converter) ← converter.copySegment coff header
    return { converter with layout := { converter.layout with code } }
  else if header.name = dataName then do
    let (initData, converter) ← converter.copySegment coff header
    return { converter with layout := { converter.layout with initData } }
  else if header.name = rdataName then do
    let (readonlyData, converter) ← converter.copySegment coff header
    return { converter with layout := { converter.layout with readonlyData } }
  else if header.name = bssName then converter.addUninit header
  else none

/-- The converter before its loop. -/
def start (uninitialised : NoffLayout) (numsections : Nat) : Converter where
  position := sizeofFileHdr + sizeofAoutHdr + numsections * sizeofScnHdr
  layout := uninitialised.cleared
  inNoffFile := sizeofNoffHeader
  written := []

end Converter

/--
`main`: the NOFF file made from the bytes of a COFF file.

Nothing stands for every exit with an error, each of which removes the file again.
-/
def coff2noff (uninitialised : NoffLayout) (coff : List Byte) : Option NoffFile := do
  let fileh ← readBytes coff 0 sizeofFileHdr
  if shortAt fileh 0 = mipselMagic then
    let systemh ← readBytes coff sizeofFileHdr sizeofAoutHdr
    if shortAt systemh 0 = omagic then
      let numsections := shortAt fileh 2
      let table ← readBytes coff (sizeofFileHdr + sizeofAoutHdr) (numsections * sizeofScnHdr)
      let sections := (List.range numsections).map (ScnHdr.ofTable table)
      let done ← sections.foldlM (Converter.addSection coff) (.start uninitialised numsections)
      return ⟨done.layout, done.written⟩
    else none
  else none

/-- The NOFF files that the converter makes. -/
abbrev ConvertedFile : Type :=
  { noff : NoffFile // ∃ uninitialised coff, coff2noff uninitialised coff = some noff }

end Nachos
