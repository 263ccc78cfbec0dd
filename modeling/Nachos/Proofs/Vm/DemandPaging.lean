import Nachos.Machine.Translate
import Nachos.Proofs.Coff2noff.Coff2noff
import Nachos.Proofs.Vm.Shape
import Nachos.Theory.Run

/-! What demand paging makes of the segments of a program, and when that is the program. -/

namespace Nachos

namespace Segment

/-- The addresses that a segment takes up in memory. -/
abbrev Covers (segment : Segment) (address : Nat) : Prop :=
  segment.virtualAddr ≤ address ∧ address < segment.virtualAddr + segment.size

/-- The byte that the file has for an address of a segment. -/
def byteAt (segment : Segment) (file : List Byte) (address : Nat) : Byte :=
  file.getD (segment.inFileAddr + (address - segment.virtualAddr)).toNat 0

end Segment

namespace NoffFile

variable {noff : NoffFile}

/-- What the file says about one byte of memory, wherever a segment covers it. -/
structure Describes (noff : NoffFile) (address : Nat) (byte : Byte) : Prop where
  copied : ∀ segment ∈ noff.layout.copied, segment.Covers address →
    byte = segment.byteAt noff.toBytes address
  uninit : noff.layout.uninitData.Covers address → byte = 0

/--
The pager reads a page right, when the executable holds `contents` and the frame held `old`.

The pager takes the bytes of a page from 52 bytes past its address, or leaves what the frame held
where the executable ends before. A copied segment is in place there, for one, when its `inFileAddr`
is 52 bytes past its `virtualAddr`.
-/
structure InPlace (noff : NoffFile) (contents : List Byte) (old : Nat → Byte) (vpn : Nat) :
    Prop where
  copied : ∀ segment ∈ noff.layout.copied, ∀ j < pageSize, segment.Covers (vpn * pageSize + j) →
    contents.getD (AddrSpace.fileOffset vpn + j) (old j) =
      segment.byteAt noff.toBytes (vpn * pageSize + j)
  uninit : ∀ j < pageSize, noff.layout.uninitData.Covers (vpn * pageSize + j) →
    contents.getD (AddrSpace.fileOffset vpn + j) (old j) = 0

end NoffFile

/-- Segments that lie in the file as they do in memory, behind the header, are in place. -/
theorem ConvertedFile.inPlace_of_shifted (noff : ConvertedFile) {old : Nat → Byte} {vpn : Nat}
    (shifted : ∀ segment ∈ noff.1.layout.copied, 0 < segment.size →
      segment.inFileAddr = segment.virtualAddr + sizeofNoffHeader)
    (zeroed : ∀ j < pageSize, noff.1.layout.uninitData.Covers (vpn * pageSize + j) →
      noff.1.toBytes.getD (AddrSpace.fileOffset vpn + j) (old j) = 0) :
    noff.1.InPlace noff.1.toBytes old vpn := by
  refine ⟨?_, zeroed⟩
  intro segment member j _ covers
  -- The segment is as far into the file as into memory.
  have above := covers.1
  have below := covers.2
  have place := shifted segment member (by omega)
  have within := noff.within segment member
  -- Both sides read the same byte of the file, and it is one that the file has.
  have same : (segment.inFileAddr + ((vpn * pageSize + j : Nat) - segment.virtualAddr)).toNat =
      AddrSpace.fileOffset vpn + j := by
    unfold AddrSpace.fileOffset
    omega
  have bounded : AddrSpace.fileOffset vpn + j < noff.1.toBytes.length := by
    unfold AddrSpace.fileOffset
    omega
  unfold Segment.byteAt
  rw [same, List.getD_eq_getElem _ _ bounded, List.getD_eq_getElem _ _ bounded]

namespace VmKernel

variable {kernel : VmKernel}

/-- Throwing a page out does not touch the memory, whether or not the page is written back. -/
theorem swapOut_mainMemory {frame : Nat} {roomy : VmKernel}
    (room : kernel.swapOut = some (frame, roomy)) : roomy.mainMemory = kernel.mainMemory := by
  -- Each lookup of the code has succeeded.
  obtain ⟨threadId, -, room⟩ := Option.bind_eq_some_iff.mp room
  obtain ⟨virtPage, -, room⟩ := Option.bind_eq_some_iff.mp room
  obtain ⟨space, -, room⟩ := Option.bind_eq_some_iff.mp room
  dsimp only at room
  split at room
  · split at room
    · -- A dirty page is written back first.
      obtain ⟨saved, written, room⟩ := Option.bind_eq_some_iff.mp room
      obtain ⟨contents, -, written⟩ := Option.bind_eq_some_iff.mp written
      cases written
      cases room
      rfl
    · -- A clean page is not written back.
      cases room
      rfl
  · cases room

/-- Getting a frame does not touch the memory, whichever way the frame is got. -/
theorem takeFrame_mainMemory {frame : Nat} {roomy : VmKernel}
    (room : kernel.takeFrame = some (frame, roomy)) : roomy.mainMemory = kernel.mainMemory := by
  obtain ⟨⟨page, phys⟩, -, room⟩ := Option.bind_eq_some_iff.mp room
  dsimp only at room
  split at room
  · have kept := swapOut_mainMemory room
    exact kept
  · cases room
    rfl

/-- Each byte of a page that is brought in: the file's, or the frame's where the file has ended. -/
theorem bringIn_byte {now : Int} {space : AddrSpace} {vpn frame : Nat} {after : VmKernel}
    {contents : List Byte} (opened : kernel.files space.exeFileId = some contents)
    (brought : kernel.bringIn now space vpn frame = some after) {j : Nat} (inside : j < pageSize) :
    after.mainMemory (frame * pageSize + j) =
      contents.getD (AddrSpace.fileOffset vpn + j) (kernel.mainMemory (frame * pageSize + j)) := by
  obtain ⟨_, -, brought⟩ := Option.bind_eq_some_iff.mp brought
  obtain ⟨_, -, brought⟩ := Option.bind_eq_some_iff.mp brought
  obtain ⟨_, -, brought⟩ := Option.bind_eq_some_iff.mp brought
  obtain ⟨read, found, brought⟩ := Option.bind_eq_some_iff.mp brought
  have same : read = contents := Option.some.inj (found.symm.trans opened)
  subst same
  cases brought
  exact store_pageBytes kernel.mainMemory read vpn frame inside

/-- Each byte of a page that a page fault brings in, in terms of the state after it got a frame. -/
theorem pageFaultHandler_byte {now : Int} {vpn frame : Nat} {space : AddrSpace}
    {roomy after : VmKernel} {contents : List Byte}
    (live : kernel.getAddrSpaceOfThread kernel.currentThread = some space)
    (absent : (space.pageTable vpn).valid = false)
    (room : kernel.takeFrame = some (frame, roomy))
    (opened : roomy.files space.exeFileId = some contents)
    (served : kernel.pageFaultHandler now vpn = some after) {j : Nat} (inside : j < pageSize) :
    after.mainMemory (frame * pageSize + j) =
      contents.getD (AddrSpace.fileOffset vpn + j) (kernel.mainMemory (frame * pageSize + j)) := by
  -- The frame is taken, and the page is read into it.
  have kept := takeFrame_sameThread room
  unfold pageFaultHandler at served
  simp only [live, absent, room, Option.bind_eq_bind, Option.bind_some, Bool.false_eq_true,
    if_false] at served
  split at served
  · obtain ⟨again, found, brought⟩ := Option.bind_eq_some_iff.mp served
    rw [kept.currentThread] at found
    -- The page table may have changed, but not the file that the page comes from.
    obtain ⟨after, held, alike⟩ := kept.shape.live live
    have same : again = after := Option.some.inj (found.symm.trans held)
    rw [← takeFrame_mainMemory room]
    exact bringIn_byte (same ▸ alike.exeFileId ▸ opened) brought inside
  · cases served

end VmKernel

/-- The constructor of an address space keeps the file that it was given. -/
theorem AddrSpace.new_exeFileId {files : UnixFiles} {threadId : Int} {fileName : FileName}
    {stack contents : List Byte} {uninitialised space : AddrSpace}
    (opened : files fileName = some contents)
    (built : AddrSpace.new files threadId fileName stack uninitialised = some space) :
    space.exeFileId = fileName := by
  unfold AddrSpace.new at built
  simp only [opened] at built
  split at built
  · cases built
    rfl
  · cases built

/--
A page is loaded as its header says exactly when its bytes are where the pager looks for them.

The space was built from a file that the converter made, and its page table may have changed since.
The executable may have been written to since as well: `contents` is what it holds once the fault
has found a frame.
-/
theorem demandPaging_loads (noff : ConvertedFile) {files : UnixFiles} {fileName : FileName}
    (converted : files fileName = some noff.1.toBytes) {threadId : Int} {stack : List Byte}
    {garbage fresh space : AddrSpace}
    (built : AddrSpace.new files threadId fileName stack garbage = some fresh)
    (sameFile : space.exeFileId = fresh.exeFileId) {kernel roomy after : VmKernel}
    (live : kernel.getAddrSpaceOfThread kernel.currentThread = some space) {vpn frame : Nat}
    (absent : (space.pageTable vpn).valid = false)
    (room : kernel.takeFrame = some (frame, roomy)) {contents : List Byte}
    (opened : roomy.files fileName = some contents) {now : Int}
    (served : kernel.pageFaultHandler now vpn = some after) :
    (∀ j < pageSize, noff.1.Describes (vpn * pageSize + j)
        (after.mainMemory (frame * pageSize + j))) ↔
      noff.1.InPlace contents (fun j => kernel.mainMemory (frame * pageSize + j)) vpn := by
  have named := sameFile.trans (AddrSpace.new_exeFileId converted built)
  -- Each byte of the frame is one of the file, or what the frame held before.
  have byte := fun j (inside : j < pageSize) =>
    VmKernel.pageFaultHandler_byte live absent room (named ▸ opened) served inside
  -- If the page is as described, so is what it came from.
  constructor
  · intro described
    refine ⟨?_, ?_⟩
    · intro segment member j inside covers
      rw [← byte j inside]
      exact (described j inside).copied segment member covers
    · intro j inside covers
      rw [← byte j inside]
      exact (described j inside).uninit covers
  · -- If the bytes are in place, so is what is brought in.
    intro inPlace j inside
    refine ⟨?_, ?_⟩
    · intro segment member covers
      rw [byte j inside]
      exact inPlace.copied segment member j inside covers
    · intro covers
      rw [byte j inside]
      exact inPlace.uninit j inside covers

/-- The space of a process that runs the file. -/
def launchedSpace (noff : NoffFile) : AddrSpace where
  threadId := 0
  numPages := AddrSpace.pagesOf (AddrSpace.header noff.toBytes [])
  exeFileId := [1]
  pageTable := AddrSpace.freshEntry

/-- The machine once a process runs the file, with nothing in its memory yet. -/
def launch (noff : NoffFile) : Option VmKernel :=
  replay VmKernel.step
    (.boot (fun _ => some noff.toBytes) (fun _ => 0) (fun _ _ => ⟨0, 0, true, 0, 0⟩)
      (fun _ => ⟨0, 0⟩) 0)
    [(1, .create 0 [1] [] ⟨0, 0, [], AddrSpace.freshEntry⟩), (2, .switchTo 0)]

/-- A program whose only segment starts at address 0 is loaded. -/
theorem demandPaging_loads_text :
    coff2noff blankLayout textProgram = some textNoff ∧
      ∃ kernel after, launch textNoff = some kernel ∧ kernel.pageFaultHandler 3 0 = some after ∧
        ∀ j < pageSize,
          textNoff.Describes (0 * pageSize + j) (after.mainMemory (0 * pageSize + j)) := by
  -- The conversion is evaluated, and so is the launch up to the page fault.
  have produced : coff2noff blankLayout textProgram = some textNoff := by decide +kernel
  refine ⟨produced, ?_⟩
  obtain ⟨kernel, roomy, after, space, launched, live, absent, file, room, opened, served⟩ :
      ∃ kernel roomy after space, launch textNoff = some kernel ∧
        kernel.getAddrSpaceOfThread kernel.currentThread = some space ∧
        (space.pageTable 0).valid = false ∧ space.exeFileId = [1] ∧
        kernel.takeFrame = some (0, roomy) ∧ roomy.files [1] = some textNoff.toBytes ∧
        kernel.pageFaultHandler 3 0 = some after :=
    ⟨_, _, _, _, rfl, rfl, rfl, rfl, rfl, rfl, rfl⟩
  let noff : ConvertedFile := ⟨textNoff, blankLayout, textProgram, produced⟩
  -- The space is the one that the constructor builds from the file.
  have built : AddrSpace.new (fun _ => some textNoff.toBytes) 0 [1] []
      ⟨0, 0, [], AddrSpace.freshEntry⟩ = some (launchedSpace textNoff) := rfl
  refine ⟨kernel, after, launched, served, ?_⟩
  refine (demandPaging_loads noff (by rfl) built file live absent room opened served).mpr ?_
  -- Every segment of this program is as far into the file as into memory, past the header.
  refine noff.inPlace_of_shifted ?_ ?_
  · change ∀ segment ∈ textNoff.layout.copied, 0 < segment.size →
      segment.inFileAddr = segment.virtualAddr + sizeofNoffHeader
    decide
  · intro j _ covers
    exact absurd covers.2 (by simp [noff, textNoff, blankLayout])

/-- The data of a program is not found where it is in memory: its page is not even read. -/
theorem demandPaging_misses_data :
    coff2noff blankLayout dataProgram = some dataNoff ∧
      ∃ kernel after, launch dataNoff = some kernel ∧ kernel.pageFaultHandler 3 1 = some after ∧
        ¬ ∀ j < pageSize,
          dataNoff.Describes (1 * pageSize + j) (after.mainMemory (0 * pageSize + j)) := by
  refine ⟨by decide +kernel, ?_⟩
  obtain ⟨kernel, after, launched, served, held⟩ : ∃ kernel after,
      launch dataNoff = some kernel ∧ kernel.pageFaultHandler 3 1 = some after ∧
        after.mainMemory 0 = 0 := ⟨_, _, rfl, rfl, by decide +kernel⟩
  refine ⟨kernel, after, launched, served, fun described => ?_⟩
  -- The first byte of the data is 5 in the file, and 0 in the frame that was taken.
  have first := (described 0 (by decide)).copied dataNoff.layout.initData (by decide) (by decide)
  exact absurd (held.symm.trans first) (by decide)

end Nachos
