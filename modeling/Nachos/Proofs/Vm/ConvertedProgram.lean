import Nachos.Proofs.Userprog.Covers
import Nachos.Proofs.Vm.FlatMachine

/-! From its COFF file, a program comes to run as on a processor with a flat memory. -/

namespace Nachos

/-- Sections that follow one another in memory, in the order in which the file has them. -/
def Consecutive : Int → List ScnHdr → Prop
  | _, [] => True
  | next, header :: rest => header.paddr = next ∧ Consecutive (next + header.size) rest

/-- The contents of the sections are in memory, each at the address of its section. -/
def Linked (coff : List Byte) (copied : List ScnHdr) (memory : MainMemory) : Prop :=
  ∀ header ∈ copied, ∀ k : Nat, k < header.size →
    fileByte coff (header.scnptr + k) = some (memory (header.paddr.toNat + k))

namespace Consecutive

variable {copied : List ScnHdr}

/-- Sections that go forward are not below the first of them. -/
theorem above : ∀ {next : Int}, Consecutive next copied →
    copied.Pairwise (fun earlier _ => 0 ≤ earlier.size) → ∀ header ∈ copied,
      next ≤ header.paddr := by
  -- Over the sections: each starts where the one before it ends.
  induction copied with
  | nil => exact fun _ _ _ member => by cases member
  | cons header rest ih =>
    intro next ordered sized other member
    obtain ⟨first, sized⟩ := List.pairwise_cons.mp sized
    obtain ⟨here, ordered⟩ := ordered
    -- The section is the first one, or behind it.
    rcases List.mem_cons.mp member with rfl | later
    · omega
    · have forward := first other later
      have beyond := ih ordered sized other later
      omega

/-- If the segments of such sections are back to back, each is as far into the file as in memory. -/
theorem shifted {segment : ScnHdr → Segment} : ∀ {previous : Segment} {next : Int},
    previous.inFileAddr + previous.size = next + sizeofNoffHeader →
    (previous :: copied.map segment).IsChain
      (fun segment next => next.inFileAddr = segment.inFileAddr + segment.size) →
    (∀ header ∈ copied, (segment header).size = header.size) → Consecutive next copied →
    ∀ header ∈ copied, (segment header).inFileAddr = header.paddr + sizeofNoffHeader := by
  -- By induction on the sections, with the end of the one before.
  induction copied with
  | nil => exact fun _ _ _ _ _ member => by cases member
  | cons header rest ih =>
    intro previous next ends chain sizes ordered other member
    obtain ⟨follows, chain⟩ := List.isChain_cons_cons.mp chain
    obtain ⟨here, ordered⟩ := ordered
    have size := sizes header List.mem_cons_self
    -- The section is the first one, or behind it.
    rcases List.mem_cons.mp member with rfl | later
    · omega
    · apply ih (by omega) chain _ ordered other later
      exact fun another inside => sizes another (List.mem_cons_of_mem _ inside)

end Consecutive

/-- The segment for the contents of a name is one of the segments of the header. -/
theorem NoffLayout.segmentOf_mem (layout : NoffLayout) (name : List Byte) :
    layout.segmentOf name ∈ layout.segments := by
  unfold segmentOf segments
  split_ifs <;> simp

/-- What has been copied faithfully is in memory, if the memory begins as the NOFF file does. -/
theorem FaithfulCopy.linked {coff noff : List Byte} {sections : List ScnHdr}
    (faithful : FaithfulCopy coff noff sections) (table : sectionsOf coff = some sections)
    (transferable : Transferable (copiedSections sections))
    (ordered : Consecutive 0 (copiedSections sections)) (packs : (NoffLayout.ofBytes noff).Packs)
    {memory : MainMemory} (begins : ∀ a < divRoundUp (NoffLayout.ofBytes noff).total pageSize *
      pageSize, ∀ byte, noff[sizeofNoffHeader + a]? = some byte → memory a = byte) :
    Linked coff (copiedSections sections) memory := by
  -- Each byte of a section is copied to the NOFF file.
  intro header member k inside
  obtain ⟨byte, inNoff, inCoff⟩ := faithful.contents header member k (Int.natCast_nonneg k) inside
  obtain ⟨start, size⟩ := faithful.placed header member
  have nonneg := ordered.above transferable.sized header member
  have place : ((NoffLayout.ofBytes noff).segmentOf header.name).inFileAddr =
      header.paddr + sizeofNoffHeader :=
    ordered.shifted (show headerSegment.inFileAddr + headerSegment.size = 0 + _ from rfl)
      faithful.backToBack (fun other inside => (faithful.placed other inside).2) header member
  have ints := inInt_of_sectionsOf table header (List.mem_of_mem_filter member)
  -- The section ends below the sum of all sizes, so it is on a page of the address space.
  have startNat : ((NoffLayout.ofBytes noff).segmentOf header.name).start =
      header.paddr.toNat := by
    unfold Segment.start
    rw [start, BitVec.toNat_ofInt]
    have top := ints.1.2
    omega
  have extentNat : ((NoffLayout.ofBytes noff).segmentOf header.name).extent =
      header.size.toNat := by
    unfold Segment.extent
    rw [size, BitVec.toNat_ofInt]
    have top := ints.2.2
    omega
  -- The segment lies within the sum of all sizes.
  have ends := packs.below _ (NoffLayout.segmentOf_mem _ header.name) (by omega)
  -- So the byte is found in the file at its place behind the header.
  have there : noff[sizeofNoffHeader + (header.paddr.toNat + k)]? = some byte := by
    have position : (header.paddr + sizeofNoffHeader + k).toNat =
        sizeofNoffHeader + (header.paddr.toNat + k) := by
      omega
    unfold fileByte at inNoff
    rwa [place, if_pos (by omega), position] at inNoff
  rw [inCoff, begins _ (by omega) byte there]

/--
A program runs as its COFF file says, from the converter to the last instruction.

The sections are such as the converter copies whole, each name once, and the linker has put them
one after another from address 0 on, where the page table covers them. The process starts on a
machine of its own, no instruction uses a register while a load of it is pending, and no page is
thrown out that cannot come back as it is. Then the machine runs the program as a flat processor
does whose memory begins with the contents of the sections, each at the address of its section.
-/
theorem coff_runsFlat (uninitialised : NoffLayout) (coff : List Byte) (noff : NoffFile)
    (produced : coff2noff uninitialised coff = some noff) (sections : List ScnHdr)
    (table : sectionsOf coff = some sections)
    (once : (copiedSections sections).Pairwise (·.name ≠ ·.name))
    (transferable : Transferable (copiedSections sections))
    (ordered : Consecutive 0 (copiedSections sections))
    (packs : (NoffLayout.ofBytes noff.toBytes).Packs) (files : UnixFiles) (filename : FileName)
    (opened : files filename = some noff.toBytes) (mainMemory : MainMemory) (tlb : TLB)
    (owners : Nat → PhyMemPageEntry) (threadId created loaded : Int) (stack : List Byte)
    (garbage : AddrSpace) (kernel : VmKernel) (inTable : 0 ≤ threadId ∧ threadId < threadCountMax)
    (launched : replay VmKernel.step (.boot files mainMemory tlb owners threadId)
      [(created, .create threadId filename stack garbage), (loaded, .switchTo threadId)] =
      some kernel)
    (live : (kernel.getAddrSpaceOfThread threadId).isSome)
    (registers : Nat → Word) (events : List MachineEvent)
    (hazardFree : EveryStep Machine.step Machine.HazardFree
      (Machine.initRegisters ⟨registers, kernel⟩ kernel.pageTableSize) events)
    (spares : EveryStep Machine.step Machine.Spares
      (Machine.initRegisters ⟨registers, kernel⟩ kernel.pageTableSize) events) :
    ∃ memory, Linked coff (copiedSections sections) memory ∧
      Option.Rel (fun machine flat => flat.Shows threadId machine)
        (replay Machine.step (Machine.initRegisters ⟨registers, kernel⟩ kernel.pageTableSize)
          events)
        (replay (FlatMachine.step kernel.pageTableSize) (.start kernel.pageTableSize memory)
          events) := by
  -- The converter has copied the sections.
  obtain ⟨found, done, read, converted, rfl⟩ := sections_of_coff2noff produced
  obtain rfl : sections = found := Option.some.inj (table.symm.trans read)
  have copied : Converter.Copied coff done sections := replay_history
    (fun _ _ _ _ copied added => copied.step added) (Converter.copied_start _ _ _) converted
  have faithful := copied.faithful table once transferable
  -- The kernel accepts the file, with pages for all of them.
  obtain ⟨magic, pages⟩ := NoffFile.pagesOf_header ⟨done.layout, done.written⟩ stack
  -- The header is that of an object file.
  have runnable : VmKernel.Runnable files filename stack := by
    unfold VmKernel.Runnable
    rw [opened]
    exact magic
  -- The space is the only one, and none of its pages is in memory.
  obtain ⟨single, same, absent⟩ := single_launched inTable runnable launched live
  have size : kernel.pageTableSize = AddrSpace.pagesOf
      (AddrSpace.header (NoffFile.toBytes ⟨done.layout, done.written⟩) stack) := by
    obtain ⟨contents, opened', rfl⟩ := Observed.launched_eq inTable runnable launched live
    rw [opened] at opened'
    cases opened'
    rfl
  -- All sections lie in the pages of the space.
  have room : divRoundUp (NoffLayout.ofBytes (NoffFile.toBytes ⟨done.layout, done.written⟩)).total
      pageSize ≤ kernel.pageTableSize := by
    have fits := packs.fits
    rw [size, pages, Nat.mod_eq_of_lt fits]
    unfold divRoundUp
    simp only [pageSize]
    split_ifs <;> omega
  -- From there on the machine runs as the flat processor does.
  obtain ⟨memory, begins, ran⟩ :=
    launched_explained single absent (same ▸ opened) hazardFree spares
  refine ⟨memory, faithful.linked table transferable ordered packs ?_, ran⟩
  exact fun a below => begins a (Nat.lt_of_lt_of_le below (Nat.mul_le_mul_right _ room))

/-- The COFF file of the program that loads what it has stored. -/
def storeCoff : List Byte := coffFile [⟨textName, 0, 16, 116⟩] storeText

/-- What the converter makes of it. -/
def storeNoff : NoffFile := ⟨{ blankLayout with code := ⟨0, 52, 16⟩ }, storeText⟩

/-- The program is converted, and then loads what it has stored. -/
theorem coff_runsFlat_store :
    coff2noff blankLayout storeCoff = some storeNoff ∧
    ∃ kernel machine memory flat, launch storeNoff = some kernel ∧
      replay Machine.step (Machine.initRegisters ⟨fun _ => 0, kernel⟩ kernel.pageTableSize)
        storeEvents = some machine ∧
      Linked storeCoff [⟨textName, 0, 16, 116⟩] memory ∧
      replay (FlatMachine.step kernel.pageTableSize) (.start kernel.pageTableSize memory)
        storeEvents = some flat ∧
      machine.settle.registers 7 = 7 ∧ flat.registers 7 = 7 := by
  -- The conversion and its conditions are evaluated.
  have produced : coff2noff blankLayout storeCoff = some storeNoff := by decide +kernel
  have table : sectionsOf storeCoff = some [⟨textName, 0, 16, 116⟩] := by decide +kernel
  have layout : NoffLayout.ofBytes storeNoff.toBytes = storeNoff.layout := by decide +kernel
  have packs : (NoffLayout.ofBytes storeNoff.toBytes).Packs := by
    rw [layout]
    exact ⟨by decide, by decide⟩
  -- So are the launch and the conditions on the run.
  obtain ⟨kernel, launched, live, hazardFree, roomy⟩ : ∃ kernel, launch storeNoff = some kernel ∧
      (kernel.getAddrSpaceOfThread 0).isSome ∧
      EveryStep Machine.step Machine.HazardFree
        (Machine.initRegisters ⟨fun _ => 0, kernel⟩ kernel.pageTableSize) storeEvents ∧
      EveryStep Machine.step Machine.Roomy
        (Machine.initRegisters ⟨fun _ => 0, kernel⟩ kernel.pageTableSize) storeEvents :=
    ⟨_, rfl, by decide +kernel, by decide +kernel, by decide +kernel⟩
  -- And what the machine loads in the end.
  have loaded : ((launch storeNoff).bind fun kernel =>
      (replay Machine.step (Machine.initRegisters ⟨fun _ => 0, kernel⟩ kernel.pageTableSize)
        storeEvents).map fun machine => machine.settle.registers 7) = some 7 := by decide +kernel
  rw [launched, Option.bind_some] at loaded
  obtain ⟨machine, ran, seven⟩ := Option.map_eq_some_iff.mp loaded
  -- What the flat processor loads follows from the theorem.
  obtain ⟨memory, linked, related⟩ := coff_runsFlat blankLayout storeCoff storeNoff produced _ table
    (by decide) ⟨by decide, by decide, by decide⟩ ⟨rfl, trivial⟩ packs
    (fun _ => some storeNoff.toBytes) [1] rfl _ _ _ 0 1 2 [] _ kernel (by decide) launched live
    (fun _ => 0) storeEvents hazardFree (Machine.spares_of_roomy roomy)
  refine ⟨produced, kernel, machine, memory, ?_⟩
  rw [ran] at related
  generalize replay (FlatMachine.step _) _ _ = result at related ⊢
  cases related with
  | some alike =>
    exact ⟨_, launched, ran, linked, rfl, seven, (alike.1 7 (by decide)).symm.trans seven⟩

end Nachos
