import Mathlib.Algebra.BigOperators.Group.Finset.Basic
import Nachos.Proofs.Vm.OwnWrites
import Nachos.Proofs.Vm.Shape

/-! The quota of virtual pages: how the count that is kept differs from the pages that are live. -/

namespace Nachos

/-- Replacing one value of a table changes a sum over the table by the difference. -/
theorem sum_update {Key Value : Type} [DecidableEq Key] (keys : Finset Key) (table : Key → Value)
    (weight : Value → Int) {key : Key} (member : key ∈ keys) (value : Value) :
    ∑ k ∈ keys, weight (Function.update table key value k) =
      ∑ k ∈ keys, weight (table k) - weight (table key) + weight value := by
  -- The sums agree but for the term of the key.
  have others : ∑ k ∈ keys.erase key, weight (Function.update table key value k) =
      ∑ k ∈ keys.erase key, weight (table k) := by
    refine Finset.sum_congr rfl fun k kept => ?_
    rw [Function.update_of_ne (Finset.ne_of_mem_erase kept)]
  have after := Finset.add_sum_erase keys (fun k => weight (Function.update table key value k)) member
  have before := Finset.add_sum_erase keys (fun k => weight (table k)) member
  simp only [Function.update_self] at after
  omega

namespace VirtMemManager

variable {virt after : VirtMemManager}

/-- How many pages a place of the table stands for. -/
def pagesHeld : Option AddrSpace → Int
  | some space => space.getNumPages
  | none => 0

/-- The pages of all address spaces that are in the table. -/
def livePages (virt : VirtMemManager) : Int :=
  ∑ i ∈ Finset.range virt.virtMemTableSize, pagesHeld (virt.virtMemTable (i : Nat))

/-- The count of pages is that of the address spaces in the table. -/
def CountsLive (virt : VirtMemManager) : Prop := virt.virtPageNums = virt.livePages

/-- Replacing an address space changes the number of live pages by the difference. -/
theorem livePages_update {threadId : Int} (inTable : virt.InTable threadId)
    (place : Option AddrSpace) (count : Int) :
    livePages { virt with
        virtMemTable := Function.update virt.virtMemTable threadId place
        virtPageNums := count } =
      virt.livePages - pagesHeld (virt.virtMemTable threadId) + pagesHeld place := by
  -- The thread is one of the places of the table.
  obtain ⟨positive, below⟩ := inTable
  obtain ⟨i, rfl⟩ := Int.eq_ofNat_of_zero_le positive
  have member : i ∈ Finset.range virt.virtMemTableSize := Finset.mem_range.mpr (by omega)
  have changed := sum_update (Finset.range virt.virtMemTableSize)
    (fun j : Nat => virt.virtMemTable j) pagesHeld member place
  unfold livePages
  rw [← changed]
  refine Finset.sum_congr rfl fun j _ => ?_
  dsimp only
  -- One place of the table changes, and the sum by what is in it.
  by_cases same : j = i
  · rw [same, Function.update_self, Function.update_self]
  · have apart : (j : Int) ≠ i := by exact_mod_cast same
    rw [Function.update_of_ne apart, Function.update_of_ne same]

/-- Accesses and page faults keep the number of live pages. -/
theorem SameShape.livePages (same : virt.SameShape after) : after.livePages = virt.livePages := by
  unfold VirtMemManager.livePages
  rw [same.size]
  refine Finset.sum_congr rfl fun i _ => ?_
  have spaces := same.spaces i
  generalize virt.virtMemTable i = before at spaces
  generalize after.virtMemTable i = later at spaces
  cases spaces with
  | none => rfl
  | some alike =>
    dsimp only [pagesHeld]
    unfold AddrSpace.getNumPages
    rw [alike.numPages]

/-- Creating an address space counts its pages, and refusing one counts nothing. -/
theorem CountsLive.create (counts : virt.CountsLive) {files : UnixFiles} {threadId : Int}
    {filename : FileName} {stack : List Byte} {uninitialised : AddrSpace}
    (created : virt.createAddrSpace files threadId filename stack uninitialised = some after) :
    after.CountsLive := by
  obtain ⟨inTable, rfl | ⟨entry, free, -, -, rfl⟩⟩ := createAddrSpace_some created
  · exact counts
  · unfold CountsLive withEntry
    rw [livePages_update inTable, free, counts]
    simp [pagesHeld]

/-- Deleting an address space keeps the count right exactly if it had no pages. -/
theorem CountsLive.delete_iff (counts : virt.CountsLive) {phys phys' : PhyMemManager}
    {threadId : Int} (deleted : virt.deleteAddrSpace phys threadId = some (after, phys')) :
    after.CountsLive ↔ ∀ space ∈ virt.getAddrSpaceOfThread threadId, space.getNumPages = 0 := by
  -- There is nothing to delete, or one space goes.
  rcases deleteAddrSpace_some deleted with ⟨absent, rfl, -⟩ | ⟨entry, live, rfl⟩
  · simp [absent, counts]
  · -- The space is the one in the table.
    have inTable : virt.InTable threadId := by
      unfold getAddrSpaceOfThread at live
      split at live
      · assumption
      · cases live
    have held : virt.virtMemTable threadId = some entry := by
      unfold getAddrSpaceOfThread at live
      rwa [if_pos inTable] at live
    -- The pages are gone from the table, but not from the count.
    unfold CountsLive
    rw [livePages_update inTable, held]
    unfold CountsLive at counts
    simp only [pagesHeld, live, Option.mem_def, Option.some.injEq, forall_eq']
    omega

/-- While the count is right, only an address space that is too large is refused. -/
theorem CountsLive.refused_iff (counts : virt.CountsLive) {files : UnixFiles} {threadId : Int}
    {filename : FileName} {stack : List Byte} {uninitialised entry : AddrSpace}
    (free : virt.getAddrSpaceOfThread threadId = none)
    (built : AddrSpace.new files threadId filename stack uninitialised = some entry)
    (created : virt.createAddrSpace files threadId filename stack uninitialised = some after) :
    after.getAddrSpaceOfThread threadId = none ↔ maxVirtPages < virt.livePages + entry.getNumPages := by
  -- The place is in the table and free, so the quota decides.
  have inTable := (createAddrSpace_some created).1
  unfold getAddrSpaceOfThread at free
  rw [if_pos inTable] at free
  unfold createAddrSpace at created
  rw [if_pos inTable, free] at created
  simp only [built, Option.bind_eq_bind, Option.bind_some] at created
  rw [← counts]
  -- The source compares before it enters the space, and the count is that of the live pages.
  split at created
  · -- Too large, the space is not entered.
    rename_i tooLarge
    cases created
    simp only [getAddrSpaceOfThread, if_pos inTable, free, true_iff]
    exact tooLarge
  · -- With room for it, the space is entered and found.
    rename_i room
    cases created
    change (virt.withEntry threadId entry).getAddrSpaceOfThread threadId = none ↔ _
    rw [getAddrSpaceOfThread_withEntry inTable, if_pos rfl]
    simp only [reduceCtorEq, false_iff]
    exact room

end VirtMemManager

namespace VmKernel

/-- The event deletes no address space that has pages. -/
def DeletesNoPages (kernel : VmKernel) : Int × VmEvent → Prop
  | (_, .delete threadId) =>
    ∀ space ∈ kernel.getAddrSpaceOfThread threadId, space.getNumPages = 0
  | _ => True

instance (kernel : VmKernel) : ∀ timed : Int × VmEvent, Decidable (kernel.DeletesNoPages timed)
  | (_, .create _ _ _ _) => inferInstanceAs (Decidable True)
  | (_, .delete threadId) =>
    inferInstanceAs (Decidable (∀ space ∈ kernel.getAddrSpaceOfThread threadId, _))
  | (_, .switchTo _) => inferInstanceAs (Decidable True)
  | (_, .fault _) => inferInstanceAs (Decidable True)
  | (_, .read _ _ _) => inferInstanceAs (Decidable True)
  | (_, .write _ _ _ _) => inferInstanceAs (Decidable True)

variable {kernel after : VmKernel}

/-- An event keeps the count right unless it deletes pages. -/
theorem step_countsLive (counts : kernel.virtMemManager.CountsLive) {timed : Int × VmEvent}
    (keeps : kernel.DeletesNoPages timed) (stepped : kernel.step timed = some after) :
    after.virtMemManager.CountsLive := by
  obtain ⟨now, event⟩ := timed
  obtain ⟨⟨result, last⟩, served, rfl⟩ := Option.map_eq_some_iff.mp stepped
  -- Accesses and page faults do not touch what is counted.
  have accessed : accesses event = true → last.virtMemManager.CountsLive := by
    intro access
    have shape := (serve_reaches access served).sameThread.shape
    unfold VirtMemManager.CountsLive
    rw [shape.count, shape.livePages, counts]
  -- By cases on the event.
  cases event with
  -- A creation counts the pages that it adds.
  | create threadId filename stack uninitialised =>
    obtain ⟨virt, created, served⟩ := Option.bind_eq_some_iff.mp served
    cases served
    exact counts.create created
  -- A deletion keeps the count by the condition.
  | delete threadId =>
    obtain ⟨⟨virt, phys⟩, deleted, served⟩ := Option.bind_eq_some_iff.mp served
    cases served
    exact (counts.delete_iff deleted).mpr keeps
  -- A switch only loads a page table.
  | switchTo threadId =>
    cases served
    unfold runThread
    dsimp only
    split <;> exact counts
  | fault vpn => exact accessed rfl
  | read threadId addr size => exact accessed rfl
  | write threadId addr size value => exact accessed rfl

end VmKernel

/--
The count of virtual pages is that of the live ones as long as no pages are deleted.

The next deletion keeps it so exactly if it deletes no pages. Until then, a thread with no address
space is refused one only if it is too large for what is left.
-/
theorem virtPageNums_countsLive (files : UnixFiles) (mainMemory : MainMemory) (tlb : TLB)
    (owners : Nat → PhyMemPageEntry) (currentThread : Int) (events : List (Int × VmEvent))
    (keeps : EveryStep VmKernel.step VmKernel.DeletesNoPages
      (.boot files mainMemory tlb owners currentThread) events) (kernel : VmKernel)
    (reached : replay VmKernel.step (.boot files mainMemory tlb owners currentThread) events =
      some kernel) :
    kernel.virtMemManager.virtPageNums = kernel.virtMemManager.livePages ∧
    (∀ now threadId result after, kernel.serve now (.delete threadId) = some (result, after) →
      (after.virtMemManager.virtPageNums = after.virtMemManager.livePages ↔
        kernel.DeletesNoPages (now, .delete threadId))) ∧
    ∀ threadId filename stack uninitialised entry after,
      kernel.getAddrSpaceOfThread threadId = none →
      AddrSpace.new kernel.files threadId filename stack uninitialised = some entry →
      kernel.virtMemManager.createAddrSpace kernel.files threadId filename stack uninitialised =
        some after →
      (after.getAddrSpaceOfThread threadId = none ↔
        maxVirtPages < kernel.virtMemManager.livePages + entry.getNumPages) := by
  have start : (VmKernel.boot files mainMemory tlb owners currentThread).virtMemManager.CountsLive := by
    -- Every place of the table is empty.
    unfold VirtMemManager.CountsLive VirtMemManager.livePages
    simp [VmKernel.boot, VirtMemManager.new, VirtMemManager.pagesHeld]
  -- No event of the run deletes pages.
  have counts : kernel.virtMemManager.CountsLive := replay_guarded
    (fun _ _ _ counts keeps stepped => VmKernel.step_countsLive counts keeps stepped) start keeps
    reached
  -- What is left are the two equivalences for the next event.
  refine ⟨counts, fun now threadId result after served => ?_, ?_⟩
  · obtain ⟨⟨virt, phys⟩, deleted, served⟩ := Option.bind_eq_some_iff.mp served
    cases served
    exact counts.delete_iff deleted
  · intro threadId filename stack uninitialised entry after free built created
    exact counts.refused_iff free built created

/-- Two processes are created, and nothing is deleted. -/
theorem virtPageNums_countsLive_two : ∃ kernel, replay VmKernel.step
      (.boot (fun _ => some emptyProgram) (fun _ => 0) (fun _ _ => ⟨0, 0, true, 0, 0⟩)
        (fun _ => ⟨5, 5⟩) 0)
      [(1, .create 0 [1] [] ⟨0, 0, [], AddrSpace.freshEntry⟩), (2, .switchTo 0), (3, .fault 6),
        (4, .create 1 [2] [] ⟨0, 0, [], AddrSpace.freshEntry⟩), (5, .delete 7)] = some kernel ∧
    kernel.virtMemManager.virtPageNums = kernel.virtMemManager.livePages := by
  obtain ⟨kernel, reached⟩ : ∃ kernel, replay VmKernel.step
      (.boot (fun _ => some emptyProgram) (fun _ => 0) (fun _ _ => ⟨0, 0, true, 0, 0⟩)
        (fun _ => ⟨5, 5⟩) 0)
      [(1, .create 0 [1] [] ⟨0, 0, [], AddrSpace.freshEntry⟩), (2, .switchTo 0), (3, .fault 6),
        (4, .create 1 [2] [] ⟨0, 0, [], AddrSpace.freshEntry⟩), (5, .delete 7)] = some kernel :=
    Option.isSome_iff_exists.mp (by decide +kernel)
  exact ⟨kernel, reached,
    (virtPageNums_countsLive _ _ _ _ 0 _ (by decide +kernel) kernel reached).1⟩

/-- A process of 4008 pages comes and goes, and then there is no room left for another one. -/
theorem virtPageNums_countsDeleted : ∃ kernel, replay VmKernel.step
      (.boot (fun _ => some (hollowProgram 4000)) (fun _ => 0) (fun _ _ => ⟨0, 0, true, 0, 0⟩)
        (fun _ => ⟨0, 0⟩) 0)
      [(1, .create 0 [1] [] ⟨0, 0, [], AddrSpace.freshEntry⟩), (2, .delete 0)] = some kernel ∧
    kernel.virtMemManager.virtPageNums = 4008 ∧ kernel.virtMemManager.livePages = 0 ∧
    (AddrSpace.new kernel.files 0 [1] [] ⟨0, 0, [], AddrSpace.freshEntry⟩).map (·.numPages) =
      some 4008 ∧
    (kernel.virtMemManager.createAddrSpace kernel.files 0 [1] [] ⟨0, 0, [], AddrSpace.freshEntry⟩).map
      (fun virt => (virt.getAddrSpaceOfThread 0).isNone) = some true := by
  -- The run and what comes of it are evaluated at once.
  have evaluated : (replay VmKernel.step
      (.boot (fun _ => some (hollowProgram 4000)) (fun _ => 0) (fun _ _ => ⟨0, 0, true, 0, 0⟩)
        (fun _ => ⟨0, 0⟩) 0)
      [(1, .create 0 [1] [] ⟨0, 0, [], AddrSpace.freshEntry⟩), (2, .delete 0)]).map
        (fun kernel => (kernel.virtMemManager.virtPageNums, kernel.virtMemManager.livePages,
          (AddrSpace.new kernel.files 0 [1] [] ⟨0, 0, [], AddrSpace.freshEntry⟩).map (·.numPages),
          (kernel.virtMemManager.createAddrSpace kernel.files 0 [1] []
            ⟨0, 0, [], AddrSpace.freshEntry⟩).map
              (fun virt => (virt.getAddrSpaceOfThread 0).isNone))) =
      some (4008, 0, some 4008, some true) := by decide +kernel
  obtain ⟨kernel, reached, values⟩ := Option.map_eq_some_iff.mp evaluated
  simp only [Prod.mk.injEq] at values
  exact ⟨kernel, reached, values⟩

end Nachos
