import Nachos.Proofs.Vm.Resolve
import Nachos.Proofs.Vm.TlbShortcut
import Nachos.Userprog.Translate

/-! When the two translations of an address agree: that of the machine, and that of the space. -/

namespace Nachos

namespace VmKernel

variable {kernel after : VmKernel}

/-- No entry of a page table has a frame past the last one, whether or not it is valid. -/
def FramesExist (kernel : VmKernel) : Prop :=
  ∀ threadId space, kernel.virtMemManager.virtMemTable threadId = some space →
    ∀ v, (space.pageTable v).physicalPage < numPhysPages

/-- Replacing an entry keeps it if the new entry has such a frame. -/
theorem FramesExist.setEntry (frames : kernel.FramesExist) (threadId : Int) (vpn : Nat)
    {entry : TranslationEntry} (inRange : entry.physicalPage < numPhysPages) :
    (kernel.setEntry threadId vpn entry).FramesExist := by
  intro other space held v
  simp only [VmKernel.setEntry, VirtMemManager.setEntry] at held
  -- Only this entry of this thread is new; every other one is as it was.
  by_cases same : other = threadId
  · rw [same, Function.update_self] at held
    -- The space is that of the thread, with one entry changed.
    obtain ⟨before, was, rfl⟩ := Option.map_eq_some_iff.mp held
    by_cases here : v = vpn
    · simpa [here] using inRange
    · simpa [here] using frames threadId before was v
  · -- Another thread has its own space.
    rw [Function.update_of_ne same] at held
    exact frames other space held v

/-- A page table walk keeps it. -/
theorem FramesExist.walk (frames : kernel.FramesExist) {virtAddr : Word} {size : Nat}
    {writing : Bool} {result : Except ExceptionType Int}
    (walked : kernel.walk virtAddr size writing = some (result, after)) : after.FramesExist := by
  rcases walk_cases walked with ⟨_, -, rfl, -⟩ | ⟨threadId, space, -, held, -, -, -, -, rfl⟩
  · exact frames
  · have inRange := frames threadId space held (virtAddr.toNat / pageSize)
    -- A walk that writes sets bits of the entry, and leaves its frame.
    cases writing with
    | false => exact frames
    | true => exact FramesExist.setEntry (by exact frames) threadId _ inRange

/-- So does a translation. -/
theorem FramesExist.translate (frames : kernel.FramesExist) {virtAddr : Word} {size : Nat}
    {writing : Bool} {result : Except ExceptionType Int}
    (translated : kernel.translate virtAddr size writing = some (result, after)) :
    after.FramesExist := by
  -- It ends at an odd address, at the TLB, or with a walk.
  obtain ⟨-, rfl⟩ | ⟨-, ⟨-, -, rfl⟩ | ⟨-, walked⟩⟩ := translate_ends translated
  · exact frames
  · exact frames
  · exact FramesExist.walk (by exact frames) walked

/-- So does the service of a page fault: the page gets a frame of the machine. -/
theorem FramesExist.fault (frames : kernel.FramesExist) (table : kernel.FrameTable) {now : Int}
    {vpn : Nat} (handled : kernel.pageFaultHandler now vpn = some after) : after.FramesExist := by
  obtain ⟨space, live, below⟩ := pageFaultHandler_some handled
  -- A page that is in memory already is left alone.
  cases valid : (space.pageTable vpn).valid with
  | true =>
    rw [pageFaultHandler_valid live below valid] at handled
    cases handled
    exact frames
  | false =>
    obtain ⟨page, middle, space', contents, taken, -, -, -, -, -, loads⟩ :=
      pageFaultHandler_loads table live below valid now
    rw [loads] at handled
    cases handled
    -- Before the page is loaded, a frame is free, or emptied of the page that it had.
    have emptied : middle.FramesExist ∧ page < numPhysPages := by
      cases taken with
      | free inRange => exact ⟨frames, inRange⟩
      | swapped _ _ inRange _ lives =>
        exact ⟨frames.setEntry _ _ (by exact frames _ _ (held_of_live lives) _), inRange⟩
    obtain ⟨frames, inRange⟩ := emptied
    exact frames.setEntry _ _ (Int.ofNat_lt.mpr inRange)

/-- So does every access. -/
theorem FramesExist.reaches (frames : kernel.FramesExist) (table : kernel.FrameTable)
    (reaches : kernel.Reaches after) : after.FramesExist := by
  -- The induction is on the steps of the access.
  induction reaches with
  | refl => exact frames
  | translated _ made ih => exact ih.translate made
  | faulted before handled ih => exact ih.fault (table.reaches before) handled
  | stored _ _ ih => exact ih

/-- Every admitted event keeps it. -/
theorem FramesExist.step (frames : kernel.FramesExist) (table : kernel.FrameTable)
    {timed : Int × VmEvent} (admitted : kernel.Admitted timed)
    (stepped : kernel.step timed = some after) : after.FramesExist := by
  obtain ⟨now, event⟩ := timed
  obtain ⟨⟨result, last⟩, served, rfl⟩ := Option.map_eq_some_iff.mp stepped
  cases event with
  -- A new space begins without any frames.
  | create threadId filename stack uninitialised =>
    obtain ⟨virt, created, served⟩ := Option.bind_eq_some_iff.mp served
    cases served
    obtain ⟨contents, -, fresh⟩ := addrSpace_new_eq admitted.2 threadId uninitialised
    obtain ⟨inTable, rfl | ⟨entry, free, built, -, rfl⟩⟩ :=
      VirtMemManager.createAddrSpace_some created
    · -- Nothing was created.
      exact frames
    · -- No page of the new space has a frame.
      rw [fresh] at built
      cases built
      intro other space held v
      simp only [VirtMemManager.withEntry] at held
      by_cases same : other = threadId
      · rw [same, Function.update_self] at held
        cases held
        simp [AddrSpace.freshEntry]
      · -- The other spaces are as they were.
        rw [Function.update_of_ne same] at held
        exact frames other space held v
  -- A deletion takes a table away.
  | delete threadId =>
    obtain ⟨⟨virt, phys⟩, deleted, served⟩ := Option.bind_eq_some_iff.mp served
    cases served
    rcases VirtMemManager.deleteAddrSpace_some deleted with ⟨-, rfl, -⟩ | ⟨entry, -, rfl⟩
    · -- Nothing was deleted.
      exact frames
    · -- The table of the thread is gone, and the others are untouched.
      intro other space held v
      by_cases same : other = threadId
      · simp [same] at held
      · exact frames other space (by simpa [same] using held) v
  -- Switching changes no table.
  | switchTo threadId =>
    cases served
    unfold VmKernel.runThread
    dsimp only
    split <;> exact frames
  -- The other events go through the memory manager.
  | fault vpn => exact frames.reaches table (serve_reaches rfl served)
  | read threadId addr size => exact frames.reaches table (serve_reaches rfl served)
  | write threadId addr size value => exact frames.reaches table (serve_reaches rfl served)

end VmKernel

/--
Two translations of an address in a page agree.

Both raise an exception, or both find the same physical address and leave the same dirty bit.
-/
inductive TranslationsAgree (threadId : Int) (vpn : Nat) :
    Option (Except ExceptionType Int × VmKernel) →
      Option (Except ExceptionType Word × AddrSpace) → Prop
  | raised (exception other : ExceptionType) (kernel : VmKernel) (space : AddrSpace) :
    TranslationsAgree threadId vpn (some (.error exception, kernel)) (some (.error other, space))
  | found {paddr : Word} {kernel : VmKernel} {after space : AddrSpace}
    (live : kernel.getAddrSpaceOfThread threadId = some after)
    (dirty : (after.pageTable vpn).dirty = (space.pageTable vpn).dirty) :
    TranslationsAgree threadId vpn (some (.ok paddr.toNat, kernel)) (some (.ok paddr, space))

namespace AddrSpace

/-- The valid bit of a page says the same as the limit on pages, or the page is past both ends. -/
def TranslatesAlike (space : AddrSpace) (vpn : Nat) : Prop :=
  if vpn < space.numPages then (space.pageTable vpn).valid = true ↔ vpn < numVirtualPages
  else numVirtualPages ≤ vpn

instance (space : AddrSpace) (vpn : Nat) : Decidable (space.TranslatesAlike vpn) := by
  unfold TranslatesAlike
  infer_instance

variable {space : AddrSpace} {vaddr : Word} {writing : Bool}

/-- A page past the limit on pages raises an exception. -/
theorem translate_past (past : numVirtualPages ≤ vaddr.toNat / pageSize) :
    space.translate vaddr writing = some (.error .addressErrorException, space) := by
  simp [translate, past]

/-- A page past the end of the page table is looked up all the same. -/
theorem translate_outside (below : vaddr.toNat / pageSize < numVirtualPages)
    (outside : space.numPages ≤ vaddr.toNat / pageSize) : space.translate vaddr writing = none := by
  simp [translate, Nat.not_le.mpr below, outside]

/-- A page that has a frame is translated. -/
theorem translate_framed {page : Nat} (below : vaddr.toNat / pageSize < numVirtualPages)
    (inTable : vaddr.toNat / pageSize < space.numPages)
    (writable : (space.pageTable (vaddr.toNat / pageSize)).readOnly = false)
    (frame : (space.pageTable (vaddr.toNat / pageSize)).physicalPage = page)
    (inRange : page < numPhysPages) :
    ∃ paddr : Word, paddr.toNat = page * pageSize + vaddr.toNat % pageSize ∧
      space.translate vaddr writing = some (.ok paddr, space.setEntry (vaddr.toNat / pageSize)
        { space.pageTable (vaddr.toNat / pageSize) with
          use := true
          dirty := (space.pageTable (vaddr.toNat / pageSize)).dirty || writing }) := by
  -- The address is inside of the frame, and so inside of the memory.
  have within : page * pageSize + vaddr.toNat % pageSize < physicalMemorySize := by
    have offset : vaddr.toNat % pageSize < pageSize := Nat.mod_lt _ (by decide)
    simp only [physicalMemorySize, numPhysPages, pageSize] at *
    omega
  have place : (BitVec.ofInt 32
      ((page : Int) * (pageSize : Nat) + (vaddr.toNat % pageSize : Nat))).toNat =
        page * pageSize + vaddr.toNat % pageSize := by
    rw [← Int.natCast_mul, ← Int.natCast_add, BitVec.ofInt_natCast, BitVec.toNat_ofNat]
    -- Every address of the memory is far below the largest word.
    exact Nat.mod_eq_of_lt (within.trans (by decide))
  -- No test finds an error, so the address is returned.
  refine ⟨_, place, ?_⟩
  unfold translate
  dsimp only
  rw [if_neg (Nat.not_le.mpr below), if_neg (Nat.not_le.mpr inTable), writable, Bool.and_false,
    if_neg Bool.false_ne_true, frame, if_neg (by omega), if_pos (by rw [place]; exact within)]

/-- A page without a frame past the last one is not refused, if the assertion lets it pass. -/
theorem translate_unchecked (below : vaddr.toNat / pageSize < numVirtualPages)
    (inTable : vaddr.toNat / pageSize < space.numPages)
    (writable : (space.pageTable (vaddr.toNat / pageSize)).readOnly = false)
    (frame : (space.pageTable (vaddr.toNat / pageSize)).physicalPage < numPhysPages)
    {exception : ExceptionType} {after : AddrSpace} :
    space.translate vaddr writing ≠ some (.error exception, after) := by
  intro translated
  unfold translate at translated
  dsimp only at translated
  -- None of the checks refuses the address.
  rw [if_neg (Nat.not_le.mpr below), if_neg (Nat.not_le.mpr inTable), writable, Bool.and_false,
    if_neg Bool.false_ne_true, if_neg (by omega)] at translated
  -- What is left is the assertion: it stops the kernel, or an address is returned.
  split at translated
  · cases translated
  · cases translated

end AddrSpace

namespace VmKernel

variable {kernel : VmKernel}

/-- Skipping the TLB, and with the page table of a live thread loaded, the page table is walked. -/
theorem translateWithoutTlb_loaded (kernel : VmKernel) (threadId : Int) (vaddr : Word)
    (writing : Bool) : (kernel.runThread threadId).translateWithoutTlb vaddr 1 writing =
      (kernel.runThread threadId).walk vaddr 1 writing := by
  -- A single byte is always aligned.
  have straight : misaligned vaddr 1 = false := misaligned_of_mod (Nat.mod_one _)
  rw [translateWithoutTlb, straight, if_neg Bool.false_ne_true]

/-- Loading a live thread puts its page table in place, with its length, and changes no table. -/
theorem runThread_loaded {threadId : Int} {space : AddrSpace}
    (live : kernel.getAddrSpaceOfThread threadId = some space) :
    (kernel.runThread threadId).pageTable = some threadId ∧
      (kernel.runThread threadId).pageTableSize = space.numPages ∧
      (kernel.runThread threadId).virtMemManager = kernel.virtMemManager := by
  unfold runThread
  dsimp only
  -- The live thread is looked up on a kernel that differs in who runs alone.
  rw [show getAddrSpaceOfThread { kernel with currentThread := threadId } threadId = some space
    from live]
  exact ⟨rfl, rfl, rfl⟩

/-- After a page table walk the page is marked as dirty if it is written. -/
theorem walked_live {threadId : Int} {space : AddrSpace}
    (live : kernel.getAddrSpaceOfThread threadId = some space) (vaddr : Word) (writing : Bool) :
    ∃ after, (kernel.walked vaddr writing threadId space).getAddrSpaceOfThread threadId =
      some after ∧ (after.pageTable (vaddr.toNat / pageSize)).dirty =
        ((space.pageTable (vaddr.toNat / pageSize)).dirty || writing) := by
  -- A read marks nothing.
  cases writing with
  | false => exact ⟨space, live, by simp⟩
  | true =>
    refine ⟨space.setEntry (vaddr.toNat / pageSize)
      (marked (space.pageTable (vaddr.toNat / pageSize)) true), ?_, by simp [marked]⟩
    -- A write goes to the table of this thread, which is still the one of the space.
    have found := kernel.getAddrSpaceOfThread_setEntry threadId (vaddr.toNat / pageSize)
      (marked (space.pageTable (vaddr.toNat / pageSize)) true) threadId
    rw [if_pos rfl, live] at found
    exact found

section Agree

variable {threadId : Int} {space : AddrSpace}
  (live : kernel.getAddrSpaceOfThread threadId = some space)

include live

/-- On a page that is in its frame, they agree exactly if the number of the page is small. -/
theorem agree_resident (paged : kernel.Paged) {vaddr : Word} {writing : Bool}
    (inTable : vaddr.toNat / pageSize < space.numPages)
    (valid : (space.pageTable (vaddr.toNat / pageSize)).valid = true) :
    TranslationsAgree threadId (vaddr.toNat / pageSize)
        ((kernel.runThread threadId).walk vaddr 1 writing) (space.translate vaddr writing) ↔
      vaddr.toNat / pageSize < numVirtualPages := by
  have held := held_of_live live
  have writable := paged.writable threadId space held (vaddr.toNat / pageSize)
  have fits : vaddr.toNat % pageSize + 1 ≤ pageSize := Nat.mod_lt _ (by decide)
  obtain ⟨pointer, length, tables⟩ := runThread_loaded live
  have lives : (kernel.runThread threadId).getAddrSpaceOfThread threadId = some space := by
    rw [getAddrSpaceOfThread, tables]
    exact live
  rw [← tables] at held
  obtain ⟨page, frame, real, -, -⟩ := paged.table.recorded threadId _ _
    ⟨space, live, inTable, valid, rfl⟩
  -- The machine finds the frame that the page table names, which is a real one.
  rw [walk_resident (by rwa [length]) pointer held valid writable frame real fits]
  rcases Nat.lt_or_ge (vaddr.toNat / pageSize) numVirtualPages with small | past
  · obtain ⟨paddr, place, found⟩ := AddrSpace.translate_framed small inTable writable frame real
    obtain ⟨after, last, dirty⟩ := walked_live lives vaddr writing
    -- Both mark the page as dirty if it is written.
    rw [found, ← place]
    exact ⟨fun _ => small, fun _ => .found last (by simp [dirty])⟩
  · -- The space raises an exception for a page that the machine finds.
    rw [AddrSpace.translate_past past]
    refine ⟨fun agree => ?_, fun small => absurd small (Nat.not_lt.mpr past)⟩
    generalize ((page * pageSize + vaddr.toNat % pageSize : Nat) : Int) = physAddr at agree
    cases agree

/-- On a page that is not in memory, they agree exactly if the number of the page is not small. -/
theorem agree_absent (paged : kernel.Paged) (frames : kernel.FramesExist) {vaddr : Word}
    {writing : Bool} (inTable : vaddr.toNat / pageSize < space.numPages)
    (valid : (space.pageTable (vaddr.toNat / pageSize)).valid = false) :
    TranslationsAgree threadId (vaddr.toNat / pageSize)
        ((kernel.runThread threadId).walk vaddr 1 writing) (space.translate vaddr writing) ↔
      ¬ vaddr.toNat / pageSize < numVirtualPages := by
  have held := held_of_live live
  have writable := paged.writable threadId space held (vaddr.toNat / pageSize)
  have inRange := frames threadId space held (vaddr.toNat / pageSize)
  obtain ⟨pointer, length, tables⟩ := runThread_loaded live
  rw [← tables] at held
  -- The machine raises a page fault.
  rw [walk_absent (by rwa [length]) pointer held valid]
  rcases Nat.lt_or_ge (vaddr.toNat / pageSize) numVirtualPages with small | past
  · -- The space looks at the frame of a page that is not in it.
    refine ⟨fun agree => ?_, fun past => absurd small past⟩
    generalize answer : space.translate vaddr writing = result at agree
    cases agree
    exact absurd answer (AddrSpace.translate_unchecked small inTable writable inRange)
  · -- The space raises an exception as well, though another one.
    rw [AddrSpace.translate_past past]
    exact ⟨fun _ => Nat.not_lt.mpr past, fun _ => .raised ..⟩

/-- Outside of the page table too: the machine compares the page with the length of the table. -/
theorem agree_outside {vaddr : Word} {writing : Bool}
    (outside : space.numPages ≤ vaddr.toNat / pageSize) :
    TranslationsAgree threadId (vaddr.toNat / pageSize)
        ((kernel.runThread threadId).walk vaddr 1 writing) (space.translate vaddr writing) ↔
      numVirtualPages ≤ vaddr.toNat / pageSize := by
  obtain ⟨-, length, -⟩ := runThread_loaded live
  have refused : (kernel.runThread threadId).walk vaddr 1 writing =
      -- The walk refuses a page outside of the table.
      some (.error .addressErrorException, kernel.runThread threadId) := by
    unfold walk
    dsimp only
    rw [if_pos (by rw [length]; exact outside)]
  rw [refused]
  -- The space compares with the limit on pages instead.
  rcases Nat.lt_or_ge (vaddr.toNat / pageSize) numVirtualPages with small | past
  · -- The space goes on to its entry there.
    rw [AddrSpace.translate_outside small outside]
    refine ⟨fun agree => (by cases agree), fun past => ?_⟩
    exact absurd small (Nat.not_lt.mpr past)
  · -- Past the limit it refuses it as well.
    rw [AddrSpace.translate_past past]
    exact ⟨fun _ => past, fun _ => .raised ..⟩

/-- The two translations of an address agree exactly if its page is treated alike. -/
theorem translationsAgree_iff (paged : kernel.Paged) (frames : kernel.FramesExist) (vaddr : Word)
    (writing : Bool) : TranslationsAgree threadId (vaddr.toNat / pageSize)
        ((kernel.runThread threadId).translateWithoutTlb vaddr 1 writing)
        (space.translate vaddr writing) ↔
      space.TranslatesAlike (vaddr.toNat / pageSize) := by
  rw [translateWithoutTlb_loaded]
  unfold AddrSpace.TranslatesAlike
  -- Inside of the page table the valid bit decides, and outside of it nothing but the limit.
  rcases Nat.lt_or_ge (vaddr.toNat / pageSize) space.numPages with inTable | outside
  · rw [if_pos inTable]
    cases valid : (space.pageTable (vaddr.toNat / pageSize)).valid with
    -- A page in memory is found by both.
    | true => simp [agree_resident live paged inTable valid]
    -- A page that is not in memory is found by one at most.
    | false => simp [agree_absent live paged frames inTable valid]
  · rw [if_neg (Nat.not_lt.mpr outside)]
    exact agree_outside live outside

end Agree

end VmKernel

/--
The two translations of an address agree exactly if the page is in memory and below the limit.

They also agree if it is neither, or if it is past both the limit and the page table.
-/
theorem translators_agree_iff (files : UnixFiles) (mainMemory : MainMemory) (tlb : TLB)
    (owners : Nat → PhyMemPageEntry) (currentThread : Int) (events : List (Int × VmEvent))
    (admitted : EveryStep VmKernel.step VmKernel.Admitted
      (.boot files mainMemory tlb owners currentThread) events) (kernel : VmKernel)
    (reached : replay VmKernel.step (.boot files mainMemory tlb owners currentThread) events =
      some kernel)
    (threadId : Int) (space : AddrSpace) (live : kernel.getAddrSpaceOfThread threadId = some space)
    (vaddr : Word) (writing : Bool) :
    TranslationsAgree threadId (vaddr.toNat / pageSize)
        ((kernel.runThread threadId).translateWithoutTlb vaddr 1 writing)
        (space.translate vaddr writing) ↔
      space.TranslatesAlike (vaddr.toNat / pageSize) := by
  -- No table exists at the boot, and no admitted event puts in a frame past the last one.
  have start : (VmKernel.boot files mainMemory tlb owners currentThread).FramesExist := by
    intro other none held
    cases held
  -- Both hold after every admitted event.
  obtain ⟨paged, frames⟩ := replay_guarded
    (fun before timed next (holds : before.Paged ∧ before.FramesExist) admitted stepped => by
      obtain ⟨last, taken, paged⟩ := holds.1.step admitted
      rw [stepped] at taken
      cases taken
      exact ⟨paged, holds.2.step holds.1.table admitted stepped⟩)
    ⟨VmKernel.Paged.boot files mainMemory tlb owners currentThread, start⟩ admitted reached
  -- So the lemma about one state applies.
  exact VmKernel.translationsAgree_iff live paged frames vaddr writing

/-- Once its first page has been brought in, a process can be written to through either. -/
theorem translators_agree_resident : ∃ kernel space,
    replay VmKernel.step
      (.boot (fun _ => some emptyProgram) (fun _ => 0) (fun _ _ => ⟨0, 0, true, 0, 0⟩)
        (fun _ => ⟨5, 5⟩) 0)
      [(1, .create 0 [1] [] ⟨0, 0, [], AddrSpace.freshEntry⟩), (2, .switchTo 0), (3, .fault 0)] =
      some kernel ∧
    kernel.getAddrSpaceOfThread 0 = some space ∧
    TranslationsAgree 0 0 ((kernel.runThread 0).translateWithoutTlb 12 1 true)
      (space.translate 12 true) := by
  obtain ⟨kernel, space, reached, live, alike⟩ : ∃ kernel space, replay VmKernel.step
        (.boot (fun _ => some emptyProgram) (fun _ => 0) (fun _ _ => ⟨0, 0, true, 0, 0⟩)
          (fun _ => ⟨5, 5⟩) 0)
        [(1, .create 0 [1] [] ⟨0, 0, [], AddrSpace.freshEntry⟩), (2, .switchTo 0), (3, .fault 0)] =
        some kernel ∧
      kernel.getAddrSpaceOfThread 0 = some space ∧ space.TranslatesAlike 0 :=
    ⟨_, _, rfl, rfl, by decide +kernel⟩
  exact ⟨kernel, space, reached, live, (translators_agree_iff _ _ _ _ 0 _ (by decide +kernel) kernel
    reached 0 space live 12 true).mpr alike⟩

/-- A process reads its first page: the machine raises a page fault, and the space is aborted. -/
theorem translators_disagree : ∃ kernel space,
    replay VmKernel.step
      (.boot (fun _ => some emptyProgram) (fun _ => 0) (fun _ _ => ⟨0, 0, true, 0, 0⟩)
        (fun _ => ⟨5, 5⟩) 0)
      [(1, .create 0 [1] [] ⟨0, 0, [], AddrSpace.freshEntry⟩), (2, .switchTo 0)] = some kernel ∧
    kernel.getAddrSpaceOfThread 0 = some space ∧
    (kernel.runThread 0).translateWithoutTlb 0 1 false =
      some (.error .pageFaultException, kernel) ∧
    space.translate 0 false = none ∧
    ¬ TranslationsAgree 0 0 ((kernel.runThread 0).translateWithoutTlb 0 1 false)
      (space.translate 0 false) := by
  obtain ⟨kernel, space, reached, live, faulted, aborted⟩ : ∃ kernel space, replay VmKernel.step
        (.boot (fun _ => some emptyProgram) (fun _ => 0) (fun _ _ => ⟨0, 0, true, 0, 0⟩)
          (fun _ => ⟨5, 5⟩) 0)
        [(1, .create 0 [1] [] ⟨0, 0, [], AddrSpace.freshEntry⟩), (2, .switchTo 0)] = some kernel ∧
      kernel.getAddrSpaceOfThread 0 = some space ∧
      (kernel.runThread 0).translateWithoutTlb 0 1 false =
        some (.error .pageFaultException, kernel) ∧
      space.translate 0 false = none :=
    ⟨_, _, rfl, rfl, rfl, by decide +kernel⟩
  refine ⟨kernel, space, reached, live, faulted, aborted, fun agree => ?_⟩
  -- What is aborted agrees with nothing.
  rw [faulted, aborted] at agree
  cases agree

end Nachos
