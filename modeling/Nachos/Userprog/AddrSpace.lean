import Mathlib.Logic.Function.Basic
import Nachos.Lib.Bitmap
import Nachos.Machine.Tlb

/-! Address spaces of user programs, and the executables they are built from and swapped to. -/

namespace Nachos

/-- The name of a UNIX file. -/
abbrev FileName : Type := List Byte

/-- The UNIX files by name. In this build `OpenFile` reads and writes them directly. -/
abbrev UnixFiles : Type := FileName → Option (List Byte)

/-- `OpenFile::ReadAt`: as many of the bytes as the file has, and the buffer as it was past them. -/
def readAt (contents into : List Byte) (numBytes position : Nat) : List Byte :=
  let read := (contents.drop position).take numBytes
  read ++ into.drop read.length

/-- `OpenFile::WriteAt`: a file that ends before the position is filled up with zeros. -/
def writeAt (contents : List Byte) (source : List Byte) (position : Nat) : List Byte :=
  splice 0 contents position source

/-- The magic number of an object file. -/
abbrev noffMagic : Word := 0xbadfad

/-- What the kernel uses of the header of an object file: its magic number and segment sizes. -/
structure NoffHeader where
  noffMagic : Word
  codeSize : Word
  initDataSize : Word
  readonlyDataSize : Word
  uninitDataSize : Word

/-- Number of bytes in a header: the magic number and four segments of three words each. -/
abbrev sizeofNoffHeader : Nat := 52

/-- Read a header. The host is little-endian, so `SwapHeader` has nothing to do. -/
def NoffHeader.ofBytes (bytes : List Byte) : NoffHeader where
  -- The size of a segment is the last of its three words.
  noffMagic := wordAt bytes 0
  codeSize := wordAt bytes 12
  initDataSize := wordAt bytes 24
  readonlyDataSize := wordAt bytes 36
  uninitDataSize := wordAt bytes 48

/-- Number of bytes of stack in an address space. -/
abbrev userStackSize : Word := 1024

/-- One entry of a page table. -/
structure TranslationEntry where
  virtualPage : Int
  physicalPage : Int
  valid : Bool
  readOnly : Bool
  use : Bool
  dirty : Bool
  deriving DecidableEq

/-- An address space: a page table and the file that its pages come from and go back to. -/
structure AddrSpace where
  threadId : Int
  numPages : Nat
  exeFileId : FileName
  pageTable : Nat → TranslationEntry

namespace AddrSpace

/-- The header that the constructor reads, over what its stack frame held. -/
def header (contents stack : List Byte) : NoffHeader :=
  .ofBytes (readAt contents stack sizeofNoffHeader 0)

/-- How many pages the segments and the stack take, the sum being an unsigned int. -/
def pagesOf (noffH : NoffHeader) : Nat :=
  -- The sum wraps around at 32 bits, as it does in the code.
  let size := noffH.codeSize + noffH.readonlyDataSize + noffH.initDataSize +
    noffH.uninitDataSize + userStackSize
  divRoundUp size.toNat pageSize

/-- The page table entry that the constructor sets up for a page. -/
def freshEntry (i : Nat) : TranslationEntry where
  virtualPage := i
  -- The frame of a page that is in none.
  physicalPage := -1
  valid := false
  readOnly := false
  use := false
  dirty := false

/--
The constructor.

It sets nothing when the file does not open, and aborts when the file is not an object file.
-/
def new (files : UnixFiles) (threadId : Int) (fileName : FileName) (stack : List Byte)
    (uninitialised : AddrSpace) : Option AddrSpace :=
  match files fileName with
  | none => some uninitialised
  | some contents =>
    let noffH := header contents stack
    if noffH.noffMagic = Nachos.noffMagic then
      -- No page is loaded yet: the first use of each one faults.
      some { threadId, numPages := pagesOf noffH, exeFileId := fileName, pageTable := freshEntry }
    else none

/-- `getNumPages`: the number of pages is an unsigned int, and is handed out as an int. -/
def getNumPages (space : AddrSpace) : Int := (BitVec.ofNat 32 space.numPages).toInt

/-- Replace one entry of the page table. -/
def setEntry (space : AddrSpace) (vpn : Nat) (entry : TranslationEntry) : AddrSpace :=
  { space with pageTable := Function.update space.pageTable vpn entry }

@[simp] theorem setEntry_numPages (space : AddrSpace) (vpn : Nat) (entry : TranslationEntry) :
    (space.setEntry vpn entry).numPages = space.numPages := rfl

@[simp] theorem setEntry_exeFileId (space : AddrSpace) (vpn : Nat) (entry : TranslationEntry) :
    (space.setEntry vpn entry).exeFileId = space.exeFileId := rfl

@[simp] theorem setEntry_pageTable (space : AddrSpace) (vpn : Nat) (entry : TranslationEntry) :
    (space.setEntry vpn entry).pageTable = Function.update space.pageTable vpn entry := rfl

/-- Where the bytes of a page are in the executable. -/
def fileOffset (vpn : Nat) : Nat := vpn * pageSize + sizeofNoffHeader

end AddrSpace

end Nachos
