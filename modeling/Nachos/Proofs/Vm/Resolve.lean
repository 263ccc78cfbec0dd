import Nachos.Proofs.Vm.Isolation
import Nachos.Proofs.Vm.TlbRuns

/-! A page fault that is served resolves: the access that raised it finds its page afterwards. -/

namespace Nachos

namespace VmKernel

/-- What holds of the memory of the machine after every run. -/
structure Paged (kernel : VmKernel) : Prop where
  table : kernel.FrameTable
  sized : kernel.Sized
  tlb : kernel.tlb.Safe
  writable : ∀ threadId space, kernel.virtMemManager.virtMemTable threadId = some space →
    ∀ v, (space.pageTable v).readOnly = false

variable {kernel after : VmKernel}

namespace Paged

/-- All that is kept by what keeps the thread, the frame table and the TLB. -/
theorem sameThread (paged : kernel.Paged) (same : kernel.SameThread after)
    (table : after.FrameTable) (tlb : after.tlb.Safe) : after.Paged := by
  refine ⟨table, paged.sized.sameThread same, tlb, fun threadId space' held v => ?_⟩
  have spaces := same.shape.spaces threadId
  rw [held] at spaces
  generalize before : kernel.virtMemManager.virtMemTable threadId = found at spaces
  cases spaces with
  | some alike => rw [alike.readOnly, paged.writable threadId _ before v]

/-- A translation keeps it, whether or not it succeeds. -/
theorem translate (paged : kernel.Paged) {virtAddr : Word} {size : Nat} {writing : Bool}
    {result : Except ExceptionType Int}
    (translated : kernel.translate virtAddr size writing = some (result, after)) :
    after.Paged := by
  have reached : kernel.Reaches after := .translated .refl translated
  exact paged.sameThread reached.sameThread (paged.table.reaches reached)
    (paged.tlb.translateFor translated).1

/-- The service of a page fault keeps it. -/
theorem fault (paged : kernel.Paged) {now : Int} {vpn : Nat}
    (handled : kernel.pageFaultHandler now vpn = some after) : after.Paged := by
  have reached : kernel.Reaches after := .faulted .refl handled
  have within := pageFaultHandler_within paged.table handled
  exact paged.sameThread reached.sameThread (paged.table.reaches reached) (paged.tlb.within within)

/-- Every access keeps it. -/
theorem reaches (paged : kernel.Paged) (reaches : kernel.Reaches after) : after.Paged := by
  induction reaches with
  | refl => exact paged
  | translated _ made ih => exact ih.translate made
  | faulted _ handled ih => exact ih.fault handled
  | stored _ _ ih => exact ⟨ih.table.congr rfl rfl rfl, ih.sized, ih.tlb, ih.writable⟩

/-- A new address space keeps it: none of its pages is in memory, and none is read-only. -/
theorem create (paged : kernel.Paged) {threadId : Int} {filename : FileName} {stack : List Byte}
    {uninitialised : AddrSpace} {virt : VirtMemManager}
    (runnable : Runnable kernel.files filename stack)
    (created : kernel.virtMemManager.createAddrSpace kernel.files threadId filename stack
      uninitialised = some virt)
    (table : FrameTable { kernel with virtMemManager := virt }) :
    Paged { kernel with virtMemManager := virt } := by
  obtain ⟨inTable, rfl | ⟨entry, free, built, -, rfl⟩⟩ :=
    VirtMemManager.createAddrSpace_some created
  · -- The manager refuses the space, and nothing changes.
    exact paged
  -- The space is built, with fresh entries.
  obtain ⟨contents, -, fresh⟩ := addrSpace_new_eq runnable threadId uninitialised
  rw [fresh] at built
  cases built
  refine ⟨table, ?_, paged.tlb, ?_⟩
  · -- The page table in use is that of a thread that had one before.
    intro pointer points
    obtain ⟨space, live, pages⟩ := paged.sized pointer points
    have different : pointer ≠ threadId := by
      rintro rfl
      rw [held_of_live live] at free
      cases free
    refine ⟨space, ?_, pages⟩
    rw [getAddrSpaceOfThread, VirtMemManager.getAddrSpaceOfThread_withEntry inTable,
      if_neg different]
    exact live
  · -- A fresh entry may be written, like all others.
    intro other space held v
    simp only [VirtMemManager.withEntry] at held
    by_cases same : other = threadId
    · rw [same, Function.update_self] at held
      cases held
      rfl
    · rw [Function.update_of_ne same] at held
      exact paged.writable other space held v

/-- So does a deletion, since the machine's page table is gone with its thread. -/
theorem delete (paged : kernel.Paged) {threadId : Int} {virt : VirtMemManager}
    {phys : PhyMemManager} (deleted : kernel.virtMemManager.deleteAddrSpace kernel.phyMemManager
      threadId = some (virt, phys))
    (table : FrameTable { kernel with virtMemManager := virt, phyMemManager := phys }) :
    Paged { kernel with
      virtMemManager := virt
      phyMemManager := phys
      pageTable := if kernel.pageTable = some threadId then none else kernel.pageTable } := by
  refine ⟨table.congr rfl rfl rfl, ?_, paged.tlb, ?_⟩
  · -- The page table in use.
    intro pointer points
    dsimp only at points
    split at points
    · cases points
    rename_i elsewhere
    -- The page table in use is not that of the space, or it would have been dropped.
    have different : pointer ≠ threadId := fun same => elsewhere (same ▸ points)
    obtain ⟨space, live, pages⟩ := paged.sized pointer points
    refine ⟨space, ?_, pages⟩
    -- The space that it belongs to is still there.
    rcases VirtMemManager.deleteAddrSpace_some deleted with ⟨-, rfl, -⟩ | ⟨entry, -, rfl⟩
    · exact live
    · rw [getAddrSpaceOfThread, VirtMemManager.getAddrSpaceOfThread_without, if_neg different]
      exact live
  · -- The spaces that are left were there before.
    intro other space held v
    rcases VirtMemManager.deleteAddrSpace_some deleted with ⟨-, rfl, -⟩ | ⟨entry, -, rfl⟩
    · exact paged.writable other space held v
    · by_cases same : other = threadId
      · simp [same] at held
      · exact paged.writable other space (by simpa [same] using held) v

/-- Loading a thread keeps it: the machine gets the length of the page table along with it. -/
theorem runThread (paged : kernel.Paged) (threadId : Int) : (kernel.runThread threadId).Paged := by
  unfold VmKernel.runThread
  dsimp only
  split
  · rename_i space live
    refine ⟨paged.table.congr rfl rfl rfl, ?_, paged.tlb, paged.writable⟩
    intro pointer points
    cases points
    exact ⟨space, live, rfl⟩
  · exact ⟨paged.table.congr rfl rfl rfl, paged.sized, paged.tlb, paged.writable⟩

/-- Every admitted event is served, and keeps all of it. -/
theorem step (paged : kernel.Paged) {timed : Int × VmEvent} (admitted : kernel.Admitted timed) :
    ∃ next, kernel.step timed = some next ∧ next.Paged := by
  obtain ⟨next, stepped, table⟩ := paged.table.step admitted
  refine ⟨next, stepped, ?_⟩
  obtain ⟨now, event⟩ := timed
  obtain ⟨⟨result, last⟩, served, rfl⟩ := Option.map_eq_some_iff.mp stepped
  -- Spaces come and go, and all that an access does is to serve faults.
  cases event with
  | create threadId filename stack uninitialised =>
    obtain ⟨virt, created, served⟩ := Option.bind_eq_some_iff.mp served
    cases served
    exact paged.create admitted.2 created table
  | delete threadId =>
    obtain ⟨⟨virt, phys⟩, deleted, served⟩ := Option.bind_eq_some_iff.mp served
    cases served
    exact paged.delete deleted (table.congr rfl rfl rfl)
  | switchTo threadId =>
    cases served
    exact paged.runThread threadId
  | fault vpn => exact paged.reaches (serve_reaches rfl served)
  | read threadId addr size => exact paged.reaches (serve_reaches rfl served)
  | write threadId addr size value => exact paged.reaches (serve_reaches rfl served)

/-- A machine that has just been switched on has nothing that could be wrong. -/
theorem boot (files : UnixFiles) (mainMemory : MainMemory) (tlb : TLB)
    (owners : Nat → PhyMemPageEntry) (currentThread : Int) :
    (VmKernel.boot files mainMemory tlb owners currentThread).Paged where
  table := frameTable_boot files mainMemory tlb owners currentThread
  sized pointer points := by cases points
  tlb := TLB.safe_of_invalid fun _ _ => rfl
  writable threadId space held := by cases held

/-- A page fault is raised for a page of the page table in use that is not in memory. -/
theorem absent_of_fault (paged : kernel.Paged) {space : AddrSpace} {virtAddr : Word} {size : Nat}
    {writing : Bool} (pointer : kernel.pageTable = some kernel.currentThread)
    (live : kernel.getAddrSpaceOfThread kernel.currentThread = some space)
    (faulted : kernel.translate virtAddr size writing = some (.error .pageFaultException, after)) :
    after = kernel ∧ kernel.tlb.hit (virtAddr.toNat / pageSize) = none ∧
      virtAddr.toNat / pageSize < space.numPages ∧
      (space.pageTable (virtAddr.toNat / pageSize)).valid = false ∧
      misaligned virtAddr size = false := by
  obtain ⟨straight, negative, rfl, threadId, own, points, held, below, invalid⟩ :=
    translate_fault faulted
  -- Every entry of the TLB names a frame, so a hit would have been an address.
  have missed : kernel.tlb.hit (virtAddr.toNat / pageSize) = none := by
    cases found : kernel.tlb.hit (virtAddr.toNat / pageSize) with
    | none => rfl
    | some way =>
      have frame := paged.tlb.frames _ way (TLB.hit_some found).1
      have scaled := Int.mul_nonneg frame.1 (Int.natCast_nonneg pageSize)
      rw [TLB.translate_hit found] at negative
      dsimp only at negative
      omega
  -- So looking into it has changed nothing.
  rw [TLB.translate_miss missed]
  obtain ⟨space', live', pages⟩ := paged.sized _ pointer
  obtain rfl : space = space' := Option.some.inj (live.symm.trans live')
  -- The walk was through the current thread's own page table.
  obtain rfl : threadId = kernel.currentThread := Option.some.inj (points.symm.trans pointer)
  obtain rfl : own = space := Option.some.inj (held.symm.trans (held_of_live live))
  exact ⟨rfl, missed, pages ▸ below, invalid, straight⟩

/-- A page in memory that the TLB does not map is found through the page table. -/
theorem translate_resident (paged : kernel.Paged) {virtAddr : Word} {size page : Nat}
    (writing : Bool) (pointer : kernel.pageTable = some kernel.currentThread)
    (sized : size = 1 ∨ size = 2 ∨ size = 4) (straight : misaligned virtAddr size = false)
    (missed : kernel.tlb.hit (virtAddr.toNat / pageSize) = none)
    (resident : kernel.Resident kernel.currentThread (virtAddr.toNat / pageSize) (page : Nat)) :
    ∃ next, kernel.translate virtAddr size writing = some
        (.ok ((page * pageSize + virtAddr.toNat % pageSize : Nat) : Int), next) ∧
      next.phyMemManager = kernel.phyMemManager := by
  have aligned := aligned_of_not_misaligned sized straight
  -- The page is in the frame that its entry names.
  obtain ⟨space, live, below, valid, frame⟩ := resident
  obtain ⟨q, same, inRange, -, -⟩ := paged.table.recorded _ _ _ ⟨space, live, below, valid, frame⟩
  obtain rfl : page = q := by exact_mod_cast same
  -- The page table in use is that of the current thread.
  obtain ⟨space', live', pages⟩ := paged.sized _ pointer
  obtain rfl : space = space' := Option.some.inj (live.symm.trans live')
  refine ⟨kernel.walked virtAddr writing kernel.currentThread space, ?_, ?_⟩
  · -- The walk finds it.
    unfold VmKernel.translate
    rw [TLB.translate_miss missed]
    simp only [straight, Bool.false_eq_true, if_false]
    rw [if_neg (by decide)]
    exact walk_resident (pages ▸ below) pointer (held_of_live live) valid
      (paged.writable _ space (held_of_live live) _) frame inRange (fits_of_aligned sized aligned)
  · -- The walk leaves the frame table alone.
    unfold walked
    cases writing <;> rfl

/-- A page fault is served, and the page is then where the frame table says it is. -/
theorem served (paged : kernel.Paged) {space : AddrSpace} {vpn : Nat}
    (live : kernel.getAddrSpaceOfThread kernel.currentThread = some space)
    (below : vpn < space.numPages) (invalid : (space.pageTable vpn).valid = false) (now : Int) :
    ∃ (page : Nat) (served : VmKernel), kernel.pageFaultHandler now vpn = some served ∧
      served.Resident kernel.currentThread vpn page := by
  obtain ⟨page, middle, found, contents, taken, lives, pages, -, -, -, handled⟩ :=
    pageFaultHandler_loads paged.table live below invalid now
  refine ⟨page, _, handled, ?_⟩
  rw [← taken.currentThread] at lives ⊢
  -- Whatever page was thrown out, the one that was asked for is in the frame now.
  exact (resident_loaded lives (pages ▸ below) now contents page _ _ _).mpr (by simp)

/-- The place that an access finds is in the memory of the machine. -/
theorem located_inMemory (paged : kernel.Paged) {now : Int} {addr : Word} {size : Nat}
    {writing : Bool} {physAddr : Nat} (sized : size = 1 ∨ size = 2 ∨ size = 4)
    (located : kernel.locate now addr size writing = some (physAddr, after)) :
    physAddr + size ≤ physicalMemorySize := by
  -- An address that comes from a translation is in memory.
  have inMemory : ∀ middle : VmKernel, middle.Paged → ∀ result,
      middle.translate addr size writing = some (.ok result, after) →
      0 ≤ result ∧ result + size ≤ physicalMemorySize := by
    intro middle paged result translated
    obtain ⟨straight, page, inRange, rfl⟩ := (paged.tlb.translateFor translated).2 result rfl
    exact (TLB.inFrame_of_aligned sized straight inRange).inMemory
  obtain ⟨middle, result, translated, rfl, rfl | ⟨missed, raised, handled⟩⟩ := locate_cases located
  · -- The first translation has given it, or the second one after a page fault.
    have bounds := inMemory middle paged result translated
    omega
  · have bounds := inMemory middle ((paged.translate raised).fault handled) result translated
    omega

end Paged

end VmKernel

/--
A page fault that is served resolves.

After every run, if the machine uses the current thread's page table, the service of a page fault
comes to an end, and the access that raised it then finds its page in a frame that the frame table
has for just this page. No access uses an address that is not in memory.
-/
theorem pageFault_resolves (files : UnixFiles) (mainMemory : MainMemory) (tlb : TLB)
    (owners : Nat → PhyMemPageEntry) (currentThread : Int) (events : List (Int × VmEvent))
    (admitted : EveryStep VmKernel.step VmKernel.Admitted
      (.boot files mainMemory tlb owners currentThread) events) (kernel : VmKernel)
    (reached : replay VmKernel.step (.boot files mainMemory tlb owners currentThread) events =
      some kernel)
    (own : kernel.pageTable = some kernel.currentThread) (now : Int) (addr : Word) (size : Nat)
    (writing : Bool) (sized : size = 1 ∨ size = 2 ∨ size = 4) :
    (∀ missed, kernel.translate addr size writing = some (.error .pageFaultException, missed) →
      ∃ (served next : VmKernel) (page : Nat),
        missed.pageFaultHandler now (addr.toNat / pageSize) = some served ∧
        served.translate addr size writing =
          some (.ok (page * pageSize + addr.toNat % pageSize : Nat), next) ∧
        page < numPhysPages ∧ addr.toNat % pageSize + size ≤ pageSize ∧
        next.phyMemManager.phyMemoryMap.bit page = true ∧
        next.phyMemManager.phyMemPageTable page =
          ⟨kernel.currentThread, (addr.toNat / pageSize : Nat)⟩ ∧
        kernel.locate now addr size writing =
          some (page * pageSize + addr.toNat % pageSize, next)) ∧
    ∀ physAddr next, kernel.locate now addr size writing = some (physAddr, next) →
      physAddr + size ≤ physicalMemorySize := by
  -- The lemma for one step carries the invariants along the run.
  obtain ⟨final, ran, paged⟩ := replay_progress
    (fun _ _ paged admitted => VmKernel.Paged.step paged admitted)
    (VmKernel.Paged.boot files mainMemory tlb owners currentThread) admitted
  obtain rfl : final = kernel := Option.some.inj (ran.symm.trans reached)
  refine ⟨fun missed faulted => ?_, fun physAddr next => paged.located_inMemory sized⟩
  -- The fault is for a page of the current thread that is not in memory.
  obtain ⟨space, live, -⟩ := paged.sized _ own
  obtain ⟨rfl, noEntry, below, invalid, straight⟩ := paged.absent_of_fault own live faulted
  obtain ⟨page, served, handled, resident⟩ := paged.served live below invalid now
  have filled := paged.fault handled
  have same := VmKernel.pageFaultHandler_sameThread handled
  -- The service adds nothing to the TLB, so the access goes through the page table again.
  have within := VmKernel.pageFaultHandler_within paged.table handled
  have stillNone : served.tlb.hit (addr.toNat / pageSize) = none := by
    refine List.find?_eq_none.mpr fun way member matched => ?_
    simp only [Bool.and_eq_true, beq_iff_eq] at matched
    obtain ⟨before, tag, -⟩ := within _ way matched.1
    have nothing := List.find?_eq_none.mp noEntry way member
    simp [before, ← tag, matched.2] at nothing
  -- The page is resident now, so the second translation finds it.
  rw [← same.currentThread] at resident
  obtain ⟨next, translated, phys⟩ := filled.translate_resident writing
    (same.pageTable.trans (own.trans (congrArg some same.currentThread.symm))) sized straight
    stillNone resident
  -- It lies in the frame that is recorded for it.
  obtain ⟨q, frame, inRange, taken, owner⟩ := filled.table.recorded _ _ _ resident
  obtain rfl : page = q := by exact_mod_cast frame
  refine ⟨served, next, page, handled, translated, inRange,
    VmKernel.fits_of_aligned sized (VmKernel.aligned_of_not_misaligned sized straight),
    phys ▸ taken, by rw [phys, owner, same.currentThread], ?_⟩
  -- The access as a whole is the fault and the second translation.
  unfold VmKernel.locate
  simp only [faulted, handled, translated, Option.bind_eq_bind, Option.bind_some, Int.toNat_natCast]
  rfl

/-- The first store of a process finds its page in the first frame. -/
theorem pageFault_resolves_store : ∃ kernel served next page,
    replay VmKernel.step
      (.boot (fun _ => some emptyProgram) (fun _ => 0) (fun _ _ => ⟨0, 0, true, 0, 0⟩)
        (fun _ => ⟨5, 5⟩) 0)
      [(1, .create 0 [1] [] ⟨0, 0, [], AddrSpace.freshEntry⟩), (2, .switchTo 0)] = some kernel ∧
    kernel.translate 140 4 true = some (.error .pageFaultException, kernel) ∧
    kernel.pageFaultHandler 3 1 = some served ∧
    served.translate 140 4 true = some (.ok (page * pageSize + 12 : Nat), next) ∧
    next.phyMemManager.phyMemPageTable page = ⟨0, 1⟩ := by
  -- The run and the fault are evaluated.
  obtain ⟨kernel, reached, own, current, faulted⟩ : ∃ kernel, replay VmKernel.step
        (.boot (fun _ => some emptyProgram) (fun _ => 0) (fun _ _ => ⟨0, 0, true, 0, 0⟩)
          (fun _ => ⟨5, 5⟩) 0)
        [(1, .create 0 [1] [] ⟨0, 0, [], AddrSpace.freshEntry⟩), (2, .switchTo 0)] = some kernel ∧
      kernel.pageTable = some kernel.currentThread ∧ kernel.currentThread = 0 ∧
      kernel.translate 140 4 true = some (.error .pageFaultException, kernel) :=
    ⟨_, rfl, rfl, rfl, rfl⟩
  -- The page is found as the theorem says.
  obtain ⟨served, next, page, handled, translated, -, -, -, owner, -⟩ :=
    (pageFault_resolves _ _ _ _ 0 _ (by decide +kernel) kernel reached own 3 140 4 true
      (.inr (.inr rfl))).1 kernel faulted
  rw [current] at owner
  exact ⟨kernel, served, next, page, reached, faulted, handled, translated, owner⟩

end Nachos
