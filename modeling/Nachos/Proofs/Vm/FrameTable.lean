import Nachos.Proofs.Vm.Translate
import Nachos.Theory.Run

/-! The frame table stays the inverse of the page tables over every run of the memory manager. -/

namespace Nachos

namespace VirtMemManager

/-- Deleting an address space clears the bits of its frames and changes nothing else. -/
theorem clearPages_eq (entry : AddrSpace) (indices : List Nat) :
    ∀ phys : PhyMemManager,
      (∀ i ∈ indices, (entry.pageTable i).valid = true →
        ∃ q : Nat, (entry.pageTable i).physicalPage = q ∧ q < phys.phyMemoryMap.numBits) →
      ∃ phyMemoryMap : Bitmap,
        clearPages entry phys indices = some { phys with phyMemoryMap } ∧
        phyMemoryMap.numBits = phys.phyMemoryMap.numBits ∧
        ∀ q : Nat, phyMemoryMap.bit q = true ↔ phys.phyMemoryMap.bit q = true ∧
          ¬ ∃ i ∈ indices, (entry.pageTable i).valid = true ∧
            (entry.pageTable i).physicalPage = q := by
  -- Each page that is resident takes one bit away, in any order.
  induction indices with
  | nil => exact fun phys _ => ⟨phys.phyMemoryMap, rfl, rfl, by simp⟩
  | cons i rest ih =>
    intro phys inRange
    cases valid : (entry.pageTable i).valid with
    | false =>
      -- A page that is not in memory has no frame to free.
      obtain ⟨map, cleared, size, bits⟩ := ih phys fun j member =>
        inRange j (List.mem_cons_of_mem i member)
      exact ⟨map, by simp [clearPages, valid, cleared], size, by simp [bits, valid]⟩
    | true =>
      -- The frame of a page in memory is freed before the others.
      obtain ⟨q, frame, below⟩ := inRange i List.mem_cons_self valid
      obtain ⟨map, cleared, size, bits⟩ := ih
        { phys with phyMemoryMap := phys.phyMemoryMap.clearBit q } fun j member =>
          inRange j (List.mem_cons_of_mem i member)
      refine ⟨map, ?_, size, fun p => ?_⟩
      · -- Freeing it succeeds, since the bit is set and in range.
        have freed : phys.clearOnePage q =
            some { phys with phyMemoryMap := phys.phyMemoryMap.clearBit q } := by
          simp [PhyMemManager.clearOnePage, Bitmap.clear_inRange _ below]
        simp [clearPages, valid, frame, freed, cleared]
      · -- A bit that is left is of neither this frame nor the others.
        rw [bits p]
        simp only [Bitmap.bit_clearBit _ below, Bool.and_eq_true, bne_iff_ne, List.mem_cons,
          exists_eq_or_imp, valid, frame, true_and, not_or, Int.natCast_inj]
        exact ⟨fun ⟨⟨other, taken⟩, free⟩ => ⟨taken, fun same => other same.symm, free⟩,
          fun ⟨taken, other, free⟩ => ⟨⟨fun same => other same.symm, taken⟩, free⟩⟩

/-- The manager with one address space more. -/
def withEntry (virt : VirtMemManager) (threadId : Int) (entry : AddrSpace) : VirtMemManager :=
  { virt with
    virtMemTable := Function.update virt.virtMemTable threadId (some entry)
    virtPageNums := virt.virtPageNums + entry.getNumPages }

/-- An address space that is added is the only new one. -/
theorem getAddrSpaceOfThread_withEntry {virt : VirtMemManager} {threadId : Int}
    (inTable : virt.InTable threadId) (entry : AddrSpace) (other : Int) :
    (virt.withEntry threadId entry).getAddrSpaceOfThread other =
      if other = threadId then some entry else virt.getAddrSpaceOfThread other := by
  by_cases same : other = threadId
  · subst same
    have still : (virt.withEntry other entry).InTable other := inTable
    rw [getAddrSpaceOfThread, if_pos still, if_pos rfl]
    simp [withEntry]
  · simp [getAddrSpaceOfThread, withEntry, same]

end VirtMemManager

/-- No address space has as many pages as there are page numbers. -/
theorem AddrSpace.pagesOf_lt (noffH : NoffHeader) : pagesOf noffH < 2 ^ 32 := by
  unfold pagesOf divRoundUp
  dsimp only
  generalize noffH.codeSize + noffH.readonlyDataSize + noffH.initDataSize + noffH.uninitDataSize +
    userStackSize = size
  have small := size.isLt
  simp only [pageSize]
  split <;> omega

namespace VmKernel

variable {kernel : VmKernel}

/-- A machine that has just been switched on has nothing in memory. -/
theorem frameTable_boot (files : UnixFiles) (mainMemory : MainMemory) (tlb : TLB)
    (owners : Nat → PhyMemPageEntry) (currentThread : Int) :
    (boot files mainMemory tlb owners currentThread).FrameTable := by
  have nobody : ∀ threadId,
      (boot files mainMemory tlb owners currentThread).getAddrSpaceOfThread threadId = none := by
    intro threadId
    -- The table holds nothing, whether or not the number is an index of it.
    exact ite_self none
  -- The clauses of the table: no page is resident, no frame is taken, and no space exists.
  refine ⟨rfl, rfl, ?_, ?_, ?_⟩
  · rintro threadId vpn page ⟨space, live, -⟩
    rw [nobody] at live
    cases live
  · intro q _ taken
    simp [boot, PhyMemManager.new] at taken
  · intro threadId space live
    rw [nobody] at live
    cases live

/-- The frame table looks at the files, at the page tables and at the frames alone. -/
theorem FrameTable.congr {next : VmKernel} (table : kernel.FrameTable)
    (files : next.files = kernel.files) (virt : next.virtMemManager = kernel.virtMemManager)
    (phys : next.phyMemManager = kernel.phyMemManager) : next.FrameTable where
  -- Each clause speaks of these parts only.
  frames := phys ▸ table.frames
  bits := phys ▸ table.bits
  -- A page in memory is in the page table of its thread.
  recorded threadId vpn page resident := by
    rw [phys]
    exact table.recorded threadId vpn page ((resident_congr virt threadId vpn page).mp resident)
  -- A frame that is taken has an owner.
  owned q below taken := by
    rw [phys] at taken
    obtain ⟨threadId, vpn, resident⟩ := table.owned q below taken
    exact ⟨threadId, vpn, (resident_congr virt threadId vpn q).mpr resident⟩
  -- The executables are as they were.
  executable threadId space live := by
    rw [files]
    exact table.executable threadId space (by rwa [getAddrSpaceOfThread, virt] at live)

/-- An executable that opens and carries the magic number. -/
def Runnable (files : UnixFiles) (filename : FileName) (stack : List Byte) : Prop :=
  match files filename with
  | some contents => (AddrSpace.header contents stack).noffMagic = noffMagic
  | none => False

instance (files : UnixFiles) (filename : FileName) (stack : List Byte) :
    Decidable (Runnable files filename stack) := by
  unfold Runnable
  split <;> infer_instance

/-- The constructor makes an address space whose pages are not in memory yet. -/
theorem addrSpace_new_eq {files : UnixFiles} {filename : FileName} {stack : List Byte}
    (runnable : Runnable files filename stack) (threadId : Int) (uninitialised : AddrSpace) :
    ∃ contents, files filename = some contents ∧
      AddrSpace.new files threadId filename stack uninitialised = some {
        threadId
        numPages := AddrSpace.pagesOf (AddrSpace.header contents stack)
        exeFileId := filename
        pageTable := AddrSpace.freshEntry } := by
  -- The header is read, as the condition says.
  unfold Runnable at runnable
  split at runnable
  · rename_i contents opened
    exact ⟨contents, opened, by simp [AddrSpace.new, opened, runnable]⟩
  · -- Without a header the condition does not hold.
    exact runnable.elim

/-- What `createAddrSpace` does: nothing, or adding an address space with no page in memory. -/
theorem createAddrSpace_cases {threadId : Int} {filename : FileName} {stack : List Byte}
    (inTable : kernel.virtMemManager.InTable threadId)
    (runnable : Runnable kernel.files filename stack) (uninitialised : AddrSpace) :
    kernel.virtMemManager.createAddrSpace kernel.files threadId filename stack uninitialised =
      some kernel.virtMemManager ∨
    ∃ entry contents, kernel.virtMemManager.getAddrSpaceOfThread threadId = none ∧
      kernel.files filename = some contents ∧
      entry = { threadId, numPages := AddrSpace.pagesOf (AddrSpace.header contents stack),
                exeFileId := filename, pageTable := AddrSpace.freshEntry } ∧
      kernel.virtMemManager.createAddrSpace kernel.files threadId filename stack uninitialised =
        some (kernel.virtMemManager.withEntry threadId entry) := by
  -- The space can be built.
  obtain ⟨contents, opened, built⟩ := addrSpace_new_eq runnable threadId uninitialised
  -- The slot is taken, or the space is built and may be too large.
  unfold VirtMemManager.createAddrSpace
  rw [if_pos inTable]
  cases held : kernel.virtMemManager.virtMemTable threadId with
  -- The thread has a space already.
  | some entry => exact .inl rfl
  | none =>
    simp only [built, Option.bind_eq_bind, Option.bind_some]
    split
    · -- Too many pages: the new address space is dropped.
      exact .inl rfl
    · -- The new space is entered.
      refine .inr ⟨_, contents, ?_, opened, rfl, rfl⟩
      rw [VirtMemManager.getAddrSpaceOfThread, if_pos inTable, held]

/-- A new address space has no page in memory, so it does not touch the frame table. -/
theorem FrameTable.withEntry (table : kernel.FrameTable) {threadId : Int} {entry : AddrSpace}
    (inTable : kernel.virtMemManager.InTable threadId)
    (absent : kernel.virtMemManager.getAddrSpaceOfThread threadId = none)
    (fresh : entry.pageTable = AddrSpace.freshEntry) {contents : List Byte}
    (opened : kernel.files entry.exeFileId = some contents) :
    FrameTable { kernel with
      virtMemManager := kernel.virtMemManager.withEntry threadId entry } := by
  have looked := VirtMemManager.getAddrSpaceOfThread_withEntry inTable entry
  refine ⟨table.frames, table.bits, ?_, ?_, ?_⟩
  · -- What was resident before is in the same frame.
    rintro other vpn page ⟨after, live, below, valid, frame⟩
    simp only [getAddrSpaceOfThread, looked] at live
    split at live
    · -- The new address space has no valid entry.
      cases live
      rw [fresh] at valid
      cases valid
    · exact table.recorded other vpn page ⟨after, live, below, valid, frame⟩
  · -- Every frame that is taken has the same owner.
    intro q below taken
    obtain ⟨other, vpn, after, live, resident⟩ := table.owned q below taken
    refine ⟨other, vpn, after, ?_, resident⟩
    have different : other ≠ threadId := by
      rintro rfl
      rw [getAddrSpaceOfThread, absent] at live
      cases live
    simp only [getAddrSpaceOfThread, looked, if_neg different]
    exact live
  · -- The new executable exists, and so do the others.
    intro other after live
    simp only [getAddrSpaceOfThread, looked] at live
    split at live
    · cases live
      exact ⟨contents, opened⟩
    · exact table.executable other after live

/-- Deleting an address space frees its frames and no others. -/
theorem FrameTable.delete (table : kernel.FrameTable) (threadId : Int) :
    ∃ virtMemManager phyMemManager,
      kernel.virtMemManager.deleteAddrSpace kernel.phyMemManager threadId =
        some (virtMemManager, phyMemManager) ∧
      virtMemManager.virtMemTableSize = kernel.virtMemManager.virtMemTableSize ∧
      FrameTable { kernel with virtMemManager, phyMemManager } := by
  unfold VirtMemManager.deleteAddrSpace
  -- Without an address space nothing is deleted.
  cases live : kernel.virtMemManager.getAddrSpaceOfThread threadId with
  | none => exact ⟨_, _, rfl, rfl, table⟩
  | some entry =>
    -- Every resident page of the thread is in a frame in range, which is freed.
    obtain ⟨map, cleared, size, bits⟩ := VirtMemManager.clearPages_eq entry
      (List.range entry.numPages) kernel.phyMemManager fun i member valid => by
        obtain ⟨q, same, below, -, -⟩ := table.recorded threadId i _
          ⟨entry, live, List.mem_range.mp member, valid, rfl⟩
        exact ⟨q, same, by rw [table.bits]; exact below⟩
    simp only [cleared, Option.bind_eq_bind, Option.bind_some]
    refine ⟨_, _, rfl, rfl, ?_⟩
    -- Who was resident and does not belong to the thread is resident still.
    have looked : ∀ other after, VirtMemManager.getAddrSpaceOfThread
        { kernel.virtMemManager with
          virtMemTable := Function.update kernel.virtMemManager.virtMemTable threadId none }
        other = some after ↔ other ≠ threadId ∧ kernel.getAddrSpaceOfThread other = some after := by
      intro other after
      by_cases same : other = threadId
      · simp [VirtMemManager.getAddrSpaceOfThread, same]
      · simp [VirtMemManager.getAddrSpaceOfThread, VmKernel.getAddrSpaceOfThread, same]
    refine ⟨table.frames, size.trans table.bits, ?_, ?_, ?_⟩
    · -- A page of another thread is in a frame that is still taken.
      rintro other vpn page ⟨after, found, below, valid, frame⟩
      obtain ⟨different, before⟩ := (looked other after).mp found
      obtain ⟨q, same, inRange, taken, owner⟩ :=
        table.recorded other vpn page ⟨after, before, below, valid, frame⟩
      refine ⟨q, same, inRange, (bits q).mpr ⟨taken, ?_⟩, owner⟩
      -- The frame is recorded for its one owner, who is another thread.
      rintro ⟨i, member, validI, frameI⟩
      obtain ⟨q', same', -, -, owner'⟩ := table.recorded threadId i _
        ⟨entry, live, List.mem_range.mp member, validI, frameI⟩
      obtain rfl : q = q' := by exact_mod_cast same'
      rw [owner] at owner'
      cases owner'
      exact different rfl
    · -- A frame that is still taken is one of another thread.
      intro q inRange taken
      obtain ⟨taken, kept⟩ := (bits q).mp taken
      obtain ⟨other, vpn, after, before, below, valid, frame⟩ := table.owned q inRange taken
      refine ⟨other, vpn, after, (looked other after).mpr ⟨?_, before⟩, below, valid, frame⟩
      rintro rfl
      rw [VmKernel.getAddrSpaceOfThread, live] at before
      cases before
      exact kept ⟨vpn, List.mem_range.mpr below, valid, frame⟩
    · -- The executables of the others exist.
      intro other after found
      exact table.executable other after ((looked other after).mp found).2

/-- A page fault of a live thread within its address space is served, and fills the frame table. -/
theorem FrameTable.fault (table : kernel.FrameTable) {space : AddrSpace} {vpn : Nat}
    (live : kernel.getAddrSpaceOfThread kernel.currentThread = some space)
    (below : vpn < space.numPages) (now : Int) :
    ∃ next, kernel.pageFaultHandler now vpn = some next ∧ next.FrameTable := by
  -- A page that is there needs nothing; else a frame is taken and filled.
  cases valid : (space.pageTable vpn).valid with
  -- The page is in memory.
  | true => exact ⟨kernel, pageFaultHandler_valid live below valid now, table⟩
  | false =>
    -- It is not, so a frame is found for it.
    obtain ⟨page, middle, after, contents, taken, lives, pages, -, entry, -, served⟩ :=
      pageFaultHandler_loads table live below valid now
    refine ⟨_, served, (taken.vacant table).loaded ?_ (pages ▸ below) ?_ now contents⟩
    · rw [taken.currentThread]
      -- The thread still has its space.
      exact lives
    · -- The page was not in it.
      rw [entry]
      exact valid

/-- Marking a page table entry keeps the frame table, as long as the page stays where it is. -/
theorem FrameTable.setEntry (table : kernel.FrameTable) {threadId : Int} {space : AddrSpace}
    (held : kernel.virtMemManager.virtMemTable threadId = some space) (vpn : Nat)
    (entry : TranslationEntry) (valid : entry.valid = (space.pageTable vpn).valid)
    (frame : entry.physicalPage = (space.pageTable vpn).physicalPage) :
    (kernel.setEntry threadId vpn entry).FrameTable := by
  -- Every thread has the same pages in the same frames as before, from the same file.
  have residents : ∀ other v page,
      (kernel.setEntry threadId vpn entry).Resident other v page ↔ kernel.Resident other v page := by
    intro other v page
    unfold Resident
    rw [getAddrSpaceOfThread_setEntry]
    by_cases thread : other = threadId
    · subst thread
      cases live : kernel.getAddrSpaceOfThread other with
      -- The thread has no space.
      | none => simp
      | some found =>
        -- The address space that the thread has is the one whose entry is replaced.
        have same := held_of_live live
        rw [held] at same
        cases same
        by_cases here : v = vpn
        · subst here
          simp [valid, frame]
        · simp [here]
    · -- Another thread has its own.
      simp [thread]
  -- So each clause is that of the table before.
  refine ⟨table.frames, table.bits, ?_, ?_, ?_⟩
  · -- What is in memory is recorded.
    intro other v page resident
    exact table.recorded other v page ((residents other v page).mp resident)
  · -- What is taken is owned.
    intro q below taken
    obtain ⟨other, v, resident⟩ := table.owned q below taken
    exact ⟨other, v, (residents other v q).mpr resident⟩
  · -- The file of the space is the same.
    intro other after live
    obtain ⟨before, wasLive, file⟩ := live_setEntry live
    rw [file]
    exact table.executable other before wasLive

/-- A translation keeps the frame table. -/
theorem FrameTable.translate (table : kernel.FrameTable) {virtAddr : Word} {size : Nat}
    {writing : Bool} {physAddr : Int} {next : VmKernel}
    (translated : kernel.translate virtAddr size writing = some (.ok physAddr, next)) :
    next.FrameTable := by
  -- The TLB has answered, or the walk has.
  rcases translate_cases translated with ⟨-, -, rfl⟩ | ⟨middle, rfl, walked⟩
  · exact table.congr rfl rfl rfl
  · rcases walk_cases walked with ⟨_, -, rfl, -⟩ | ⟨threadId, space, -, held, -, -, -, -, rfl⟩
    · exact table.congr rfl rfl rfl
    · -- The walk marks the entry it used when it was for a write.
      have aged : ∀ tlb, FrameTable { kernel with tlb } := fun tlb => table.congr rfl rfl rfl
      cases writing with
      | false => exact aged _
      | true =>
        change (VmKernel.setEntry _ threadId _ (marked _ true)).FrameTable
        exact FrameTable.setEntry (aged _) (by exact held) _ _ rfl rfl

/-- A page fault that returns was raised by a live thread within its address space. -/
theorem pageFaultHandler_some {now : Int} {vpn : Nat} {next : VmKernel}
    (handled : kernel.pageFaultHandler now vpn = some next) :
    ∃ space, kernel.getAddrSpaceOfThread kernel.currentThread = some space ∧
      vpn < space.numPages := by
  obtain ⟨space, live, rest⟩ := Option.bind_eq_some_iff.mp handled
  refine ⟨space, live, ?_⟩
  by_contra outside
  rw [if_neg outside] at rest
  cases rest

/-- Translations, page faults and stores keep the frame table. -/
theorem FrameTable.reaches (table : kernel.FrameTable) {after : VmKernel}
    (reaches : kernel.Reaches after) : after.FrameTable := by
  -- The invariant goes along with the steps that lead there.
  induction reaches with
  | refl => exact table
  | @translated _ _ _ _ _ result _ made ih =>
    cases result with
    | ok physAddr => exact ih.translate made
    | error which =>
      -- A translation that fails may still age the TLB.
      obtain ⟨tlb, rfl⟩ := translate_error made
      exact ih.congr rfl rfl rfl
  | @faulted _ _ now vpn _ handled ih =>
    obtain ⟨space, live, below⟩ := pageFaultHandler_some handled
    obtain ⟨served, same, filled⟩ := ih.fault live below now
    rw [handled] at same
    cases same
    exact filled
  | stored mainMemory _ ih => exact ih.congr rfl rfl rfl

/-- The events that the kernel and its users bring about. -/
def Admitted (kernel : VmKernel) : Int × VmEvent → Prop
  | (_, .create threadId filename stack _) =>
    kernel.virtMemManager.InTable threadId ∧ Runnable kernel.files filename stack
  | (_, .delete _) => True
  | (_, .switchTo _) => True
  | (_, .fault vpn) =>
    match kernel.getAddrSpaceOfThread kernel.currentThread with
    | some space => vpn < space.numPages
    | none => False
  -- A memory access raises its own page fault, and may end the kernel by another exception.
  | (now, .read threadId addr size) => (kernel.serve now (.read threadId addr size)).isSome
  | (now, .write threadId addr size value) =>
    (kernel.serve now (.write threadId addr size value)).isSome

instance (kernel : VmKernel) (timed : Int × VmEvent) : Decidable (kernel.Admitted timed) := by
  obtain ⟨now, event⟩ := timed
  cases event <;> unfold Admitted <;> try infer_instance
  dsimp only
  split <;> infer_instance

/-- Every admitted event is served, and leaves the frame table as it should be. -/
theorem FrameTable.step (table : kernel.FrameTable) {timed : Int × VmEvent}
    (admitted : kernel.Admitted timed) :
    ∃ next, kernel.step timed = some next ∧ next.FrameTable := by
  obtain ⟨now, event⟩ := timed
  -- By cases on the event.
  cases event with
  -- A new address space has nothing in memory.
  | create threadId filename stack uninitialised =>
    obtain ⟨inTable, runnable⟩ := admitted
    rcases createAddrSpace_cases inTable runnable uninitialised with
      same | ⟨entry, contents, absent, opened, rfl, built⟩
    · exact ⟨kernel, by simp [VmKernel.step, serve, same], table⟩
    · exact ⟨_, by simp only [VmKernel.step, serve, built]; rfl,
        table.withEntry inTable absent rfl opened⟩
  -- A deletion frees the frames of the thread.
  | delete threadId =>
    obtain ⟨virt, phys, deleted, -, cleared⟩ := table.delete threadId
    let pageTable := if kernel.pageTable = some threadId then none else kernel.pageTable
    refine ⟨{ kernel with virtMemManager := virt, phyMemManager := phys, pageTable }, ?_,
      cleared.congr rfl rfl rfl⟩
    simp only [VmKernel.step, serve, deleted]
    rfl
  | switchTo threadId =>
    refine ⟨_, rfl, ?_⟩
    -- Loading a thread moves pointers only.
    unfold runThread
    dsimp only
    split <;> exact table.congr rfl rfl rfl
  -- A page fault is admitted within the space of the current thread only.
  | fault vpn =>
    simp only [Admitted] at admitted
    split at admitted
    · rename_i space live
      obtain ⟨next, served, filled⟩ := table.fault live admitted now
      exact ⟨next, by simp [VmKernel.step, serve, served], filled⟩
    · exact admitted.elim
  -- An access that is served is made of translations, page faults and stores.
  | read threadId addr size =>
    obtain ⟨⟨value, next⟩, served⟩ := Option.isSome_iff_exists.mp admitted
    exact ⟨next, by simp only [VmKernel.step, served, Option.map_some],
      table.reaches (serve_reaches rfl served)⟩
  | write threadId addr size value =>
    obtain ⟨⟨nothing, next⟩, served⟩ := Option.isSome_iff_exists.mp admitted
    exact ⟨next, by simp only [VmKernel.step, served, Option.map_some],
      table.reaches (serve_reaches rfl served)⟩

end VmKernel

/--
The frame table is the inverse of the page tables after every run.

No event of the run touches an address space that is gone, a frame is marked as taken exactly when
one page of one live thread is in it, and then the frame table records that page.
-/
theorem frameTable_inverse (files : UnixFiles) (mainMemory : MainMemory) (tlb : TLB)
    (owners : Nat → PhyMemPageEntry) (currentThread : Int) (events : List (Int × VmEvent))
    (admitted : EveryStep VmKernel.step VmKernel.Admitted
      (.boot files mainMemory tlb owners currentThread) events) :
    ∃ final, replay VmKernel.step (.boot files mainMemory tlb owners currentThread) events =
        some final ∧
      (∀ p < numPhysPages, final.phyMemManager.phyMemoryMap.bit p = true ↔
        ∃! owner : Int × Nat, final.Resident owner.1 owner.2 p) ∧
      (∀ p < numPhysPages, ∀ threadId vpn, final.Resident threadId vpn p →
        final.phyMemManager.phyMemPageTable p = ⟨threadId, vpn⟩) ∧
      (∀ threadId vpn other v page, final.Resident threadId vpn page →
        final.Resident other v page → threadId = other ∧ vpn = v) := by
  -- The lemma for one step carries the table along the run.
  obtain ⟨final, ran, table⟩ := replay_progress
    (fun _ _ table admitted => VmKernel.FrameTable.step table admitted)
    (VmKernel.frameTable_boot files mainMemory tlb owners currentThread) admitted
  -- A frame is recorded for whoever is in it, so nobody else is.
  have recorded : ∀ p threadId vpn, final.Resident threadId vpn (p : Nat) →
      final.phyMemManager.phyMemoryMap.bit p = true ∧
      final.phyMemManager.phyMemPageTable p = ⟨threadId, vpn⟩ := by
    intro p threadId vpn resident
    obtain ⟨q, same, -, taken, owner⟩ := table.recorded threadId vpn p resident
    obtain rfl : p = q := by exact_mod_cast same
    exact ⟨taken, owner⟩
  have unique : ∀ threadId vpn other v page, final.Resident threadId vpn page →
      final.Resident other v page → threadId = other ∧ vpn = v := by
    intro threadId vpn other v page first second
    obtain ⟨q, rfl, -, -, owner⟩ := table.recorded threadId vpn page first
    obtain ⟨-, owner'⟩ := recorded q other v second
    rw [owner] at owner'
    exact ⟨congrArg PhyMemPageEntry.mainThreadId owner',
      Int.natCast_inj.mp (congrArg PhyMemPageEntry.virtualPage owner')⟩
  refine ⟨final, ran, fun p below => ⟨fun taken => ?_, ?_⟩, ?_, unique⟩
  · -- A frame that is taken has an owner, and only one.
    obtain ⟨threadId, vpn, resident⟩ := table.owned p below taken
    refine ⟨(threadId, vpn), resident, fun other also => ?_⟩
    obtain ⟨thread, page⟩ := unique _ _ _ _ _ also resident
    exact Prod.ext thread page
  · -- A frame that has an owner is taken.
    rintro ⟨owner, resident, -⟩
    exact (recorded p _ _ resident).1
  · exact fun p _ threadId vpn resident => (recorded p threadId vpn resident).2

/-- An object file that is all header, with empty segments. -/
def emptyProgram : List Byte := leBytes 4 0xbadfad ++ .replicate 48 0

/-- Two processes fault pages in and out of each other's way, and one of them is deleted. -/
theorem frameTable_inverse_deleted :
    ∃ final, replay VmKernel.step
        (.boot (fun _ => some emptyProgram) (fun _ => 0) (fun _ _ => ⟨0, 0, true, 0, 0⟩)
          (fun _ => ⟨5, 5⟩) 0)
        [(1, .create 0 [1] [] ⟨0, 0, [], AddrSpace.freshEntry⟩), (2, .switchTo 0), (3, .fault 6),
          (4, .create 1 [2] [] ⟨0, 0, [], AddrSpace.freshEntry⟩), (5, .switchTo 1), (6, .fault 2),
          (7, .write 1 256 4 9), (8, .delete 0), (9, .fault 3)] = some final ∧
      (∀ p < numPhysPages, final.phyMemManager.phyMemoryMap.bit p = true ↔
        ∃! owner : Int × Nat, final.Resident owner.1 owner.2 p) := by
  -- The events are admitted one after the other, by evaluation.
  obtain ⟨final, ran, inverse, -⟩ := frameTable_inverse (fun _ => some emptyProgram) (fun _ => 0)
    (fun _ _ => ⟨0, 0, true, 0, 0⟩) (fun _ => ⟨5, 5⟩) 0
    [(1, .create 0 [1] [] ⟨0, 0, [], AddrSpace.freshEntry⟩), (2, .switchTo 0), (3, .fault 6),
      (4, .create 1 [2] [] ⟨0, 0, [], AddrSpace.freshEntry⟩), (5, .switchTo 1), (6, .fault 2),
      (7, .write 1 256 4 9), (8, .delete 0), (9, .fault 3)] (by decide +kernel)
  exact ⟨final, ran, inverse⟩

end Nachos
