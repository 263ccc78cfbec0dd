import Nachos.Proofs.Vm.FrameTable

/-! What accesses and page faults keep: the address spaces, but for which page is in which frame. -/

namespace Nachos

/-- The same address space, but for the frames of its pages and which of them are dirty. -/
structure AddrSpace.SameShape (space after : AddrSpace) : Prop where
  numPages : after.numPages = space.numPages
  exeFileId : after.exeFileId = space.exeFileId
  readOnly : ∀ v, (after.pageTable v).readOnly = (space.pageTable v).readOnly

/-- The same address spaces in the same places, and the same count of pages. -/
structure VirtMemManager.SameShape (virt after : VirtMemManager) : Prop where
  size : after.virtMemTableSize = virt.virtMemTableSize
  count : after.virtPageNums = virt.virtPageNums
  spaces : ∀ threadId, Option.Rel AddrSpace.SameShape (virt.virtMemTable threadId)
    (after.virtMemTable threadId)

namespace VirtMemManager.SameShape

variable {virt middle after : VirtMemManager}

theorem refl (virt : VirtMemManager) : virt.SameShape virt := by
  refine ⟨rfl, rfl, fun threadId => ?_⟩
  cases virt.virtMemTable threadId with
  | none => exact .none
  | some space => exact .some ⟨rfl, rfl, fun _ => rfl⟩

theorem trans (first : virt.SameShape middle) (second : middle.SameShape after) :
    virt.SameShape after := by
  -- The places of the table are compared one by one.
  refine ⟨second.size.trans first.size, second.count.trans first.count, fun threadId => ?_⟩
  have before := first.spaces threadId
  have later := second.spaces threadId
  revert before later
  generalize virt.virtMemTable threadId = held
  generalize middle.virtMemTable threadId = between
  generalize after.virtMemTable threadId = last
  intro before later
  cases before with
  | none =>
    cases later
    exact .none
  | some same =>
    cases later with
    | some same' =>
      exact .some ⟨same'.numPages.trans same.numPages, same'.exeFileId.trans same.exeFileId,
        fun v => (same'.readOnly v).trans (same.readOnly v)⟩

theorem symm (same : virt.SameShape after) : after.SameShape virt := by
  refine ⟨same.size.symm, same.count.symm, fun threadId => ?_⟩
  have spaces := same.spaces threadId
  revert spaces
  generalize virt.virtMemTable threadId = held
  generalize after.virtMemTable threadId = last
  intro spaces
  cases spaces with
  | none => exact .none
  | some alike =>
    exact .some ⟨alike.numPages.symm, alike.exeFileId.symm, fun v => (alike.readOnly v).symm⟩

/-- An entry may be replaced as long as it stays read-only, or not. -/
theorem setEntry {threadId : Int} {vpn : Nat} {entry : TranslationEntry}
    (readOnly : ∀ space, virt.virtMemTable threadId = some space →
      entry.readOnly = (space.pageTable vpn).readOnly) :
    virt.SameShape (virt.setEntry threadId vpn entry) := by
  refine ⟨rfl, rfl, fun other => ?_⟩
  -- The place of the thread, or another one.
  by_cases here : other = threadId
  · subst here
    simp only [VirtMemManager.setEntry, Function.update_self]
    cases held : virt.virtMemTable other with
    | none => exact .none
    -- Of its space one entry is replaced.
    | some space =>
      refine .some ⟨rfl, rfl, fun v => ?_⟩
      by_cases same : v = vpn
      · subst same
        simp [readOnly space held]
      · simp [same]
  · -- The other address spaces are not touched.
    simp only [VirtMemManager.setEntry, Function.update_of_ne here]
    exact (refl virt).spaces other

/-- A thread that has an address space has one of the same shape afterwards. -/
theorem live (same : virt.SameShape after) {threadId : Int} {space : AddrSpace}
    (held : virt.getAddrSpaceOfThread threadId = some space) :
    ∃ space', after.getAddrSpaceOfThread threadId = some space' ∧ space.SameShape space' := by
  -- The place is in the table, and what is there looks the same.
  unfold getAddrSpaceOfThread at held ⊢
  unfold InTable at held ⊢
  rw [same.size]
  split at held
  · rename_i inTable
    rw [if_pos inTable]
    have spaces := same.spaces threadId
    rw [held] at spaces
    generalize after.virtMemTable threadId = found at spaces
    cases spaces with
    | some alike => exact ⟨_, rfl, alike⟩
  · cases held

end VirtMemManager.SameShape

namespace VmKernel

/-- What accesses and page faults keep: the thread, its page table, and all address spaces. -/
structure SameThread (kernel after : VmKernel) : Prop where
  currentThread : after.currentThread = kernel.currentThread
  pageTable : after.pageTable = kernel.pageTable
  pageTableSize : after.pageTableSize = kernel.pageTableSize
  shape : kernel.virtMemManager.SameShape after.virtMemManager

variable {kernel middle after : VmKernel}

theorem SameThread.refl (kernel : VmKernel) : kernel.SameThread kernel :=
  ⟨rfl, rfl, rfl, .refl _⟩

theorem SameThread.trans (first : kernel.SameThread middle) (second : middle.SameThread after) :
    kernel.SameThread after :=
  ⟨second.currentThread.trans first.currentThread, second.pageTable.trans first.pageTable,
    second.pageTableSize.trans first.pageTableSize, first.shape.trans second.shape⟩

theorem SameThread.symm (same : kernel.SameThread after) : after.SameThread kernel :=
  ⟨same.currentThread.symm, same.pageTable.symm, same.pageTableSize.symm, same.shape.symm⟩

/-- Marking an entry keeps the thread and the address spaces. -/
theorem SameThread.setEntry {threadId : Int} {vpn : Nat} {entry : TranslationEntry}
    (readOnly : ∀ space, kernel.virtMemManager.virtMemTable threadId = some space →
      entry.readOnly = (space.pageTable vpn).readOnly) :
    kernel.SameThread (kernel.setEntry threadId vpn entry) :=
  ⟨rfl, rfl, rfl, .setEntry readOnly⟩

/-- A page table walk keeps them. -/
theorem walk_sameThread {virtAddr : Word} {size : Nat} {writing : Bool}
    {result : Except ExceptionType Int} (walked : kernel.walk virtAddr size writing =
      some (result, after)) : kernel.SameThread after := by
  -- A walk that fails changes nothing.
  rcases walk_cases walked with ⟨_, -, rfl, -⟩ | ⟨threadId, space, -, held, -, -, -, -, rfl⟩
  · exact .refl _
  · -- A read marks nothing that counts.
    cases writing with
    | false => exact ⟨rfl, rfl, rfl, .refl _⟩
    | true =>
      -- The entry is marked as dirty and otherwise left alone.
      have aged : kernel.SameThread { kernel with
          tlb := kernel.tlb.update virtAddr.toNat
            (space.pageTable (virtAddr.toNat / pageSize)).physicalPage kernel.currentThread } :=
        ⟨rfl, rfl, rfl, .refl _⟩
      refine aged.trans ?_
      change SameThread _ (VmKernel.setEntry _ threadId _ (marked _ true))
      refine .setEntry fun space' held' => ?_
      have same : space = space' := Option.some.inj (held.symm.trans held')
      rw [← same]
      rfl

/-- So does a translation. -/
theorem translate_sameThread {virtAddr : Word} {size : Nat} {writing : Bool}
    {result : Except ExceptionType Int} (translated : kernel.translate virtAddr size writing =
      some (result, after)) : kernel.SameThread after := by
  unfold translate at translated
  split at translated
  · cases translated
    exact .refl _
  dsimp only at translated
  split at translated
  · cases translated
    exact ⟨rfl, rfl, rfl, .refl _⟩
  · have walked := walk_sameThread translated
    exact ⟨walked.currentThread, walked.pageTable, walked.pageTableSize, walked.shape⟩

/-- Writing a page back keeps them. -/
theorem writeBack_sameThread {space : AddrSpace} {threadId : Int} {vpn page : Nat}
    (wrote : kernel.writeBack space threadId vpn page = some after) :
    kernel.SameThread after ∧ after.virtMemManager = kernel.virtMemManager := by
  obtain ⟨contents, -, wrote⟩ := Option.bind_eq_some_iff.mp wrote
  cases wrote
  exact ⟨⟨rfl, rfl, rfl, .refl _⟩, rfl⟩

/-- Throwing a page out keeps them. -/
theorem swapOut_sameThread {page : Nat} (swapped : kernel.swapOut = some (page, after)) :
    kernel.SameThread after := by
  -- Each lookup of the code has succeeded.
  obtain ⟨swapThreadId, -, swapped⟩ := Option.bind_eq_some_iff.mp swapped
  obtain ⟨swapVirtPage, -, swapped⟩ := Option.bind_eq_some_iff.mp swapped
  obtain ⟨space, live, swapped⟩ := Option.bind_eq_some_iff.mp swapped
  have held := held_of_live live
  dsimp only at swapped
  split at swapped
  swap
  · cases swapped
  -- The page is written back if it is dirty, and is then no longer valid.
  split at swapped
  · obtain ⟨middle, wrote, swapped⟩ := Option.bind_eq_some_iff.mp swapped
    cases swapped
    obtain ⟨kept, tables⟩ := writeBack_sameThread wrote
    refine kept.trans (.setEntry fun space' held' => ?_)
    rw [tables, held] at held'
    rw [Option.some.inj held']
  · -- A page that is clean is only marked as gone.
    cases swapped
    refine .setEntry fun space' held' => ?_
    rw [held] at held'
    rw [Option.some.inj held']

/-- Finding a frame keeps them. -/
theorem takeFrame_sameThread {page : Nat} (taken : kernel.takeFrame = some (page, after)) :
    kernel.SameThread after := by
  obtain ⟨⟨found, phys⟩, -, taken⟩ := Option.bind_eq_some_iff.mp taken
  have marked : kernel.SameThread { kernel with phyMemManager := phys } :=
    ⟨rfl, rfl, rfl, .refl _⟩
  dsimp only at taken
  split at taken
  · exact marked.trans (swapOut_sameThread taken)
  · cases taken
    exact marked

/-- Reading a page in keeps them. -/
theorem bringIn_sameThread {now : Int} {space : AddrSpace} {vpn page : Nat}
    (live : kernel.getAddrSpaceOfThread kernel.currentThread = some space)
    (brought : kernel.bringIn now space vpn page = some after) : kernel.SameThread after := by
  obtain ⟨first, -, brought⟩ := Option.bind_eq_some_iff.mp brought
  obtain ⟨second, -, brought⟩ := Option.bind_eq_some_iff.mp brought
  obtain ⟨third, -, brought⟩ := Option.bind_eq_some_iff.mp brought
  obtain ⟨contents, -, brought⟩ := Option.bind_eq_some_iff.mp brought
  cases brought
  have shape : kernel.virtMemManager.SameShape (kernel.virtMemManager.setEntry
      kernel.currentThread vpn { space.pageTable vpn with valid := true, physicalPage := page }) := by
    refine .setEntry fun space' held' => ?_
    rw [Option.some.inj ((held_of_live live).symm.trans held')]
  exact ⟨rfl, rfl, rfl, shape⟩

/-- The service of a page fault keeps them. -/
theorem pageFaultHandler_sameThread {now : Int} {vpn : Nat}
    (handled : kernel.pageFaultHandler now vpn = some after) : kernel.SameThread after := by
  -- The page must lie within the address space.
  obtain ⟨space, live, handled⟩ := Option.bind_eq_some_iff.mp handled
  split at handled
  swap
  · cases handled
  -- A page that is there is left alone.
  split at handled
  · cases handled
    exact .refl _
  · -- Else a frame is taken, and the page is read into it.
    obtain ⟨⟨page, middle⟩, taken, handled⟩ := Option.bind_eq_some_iff.mp handled
    obtain ⟨space', live', handled⟩ := Option.bind_eq_some_iff.mp handled
    have kept := takeFrame_sameThread taken
    refine kept.trans (bringIn_sameThread ?_ handled)
    rw [kept.currentThread]
    exact kept.currentThread ▸ live'

/-- Finding the place of an access keeps them, whether or not there is a page fault. -/
theorem locate_sameThread {now : Int} {addr : Word} {size : Nat} {writing : Bool} {physAddr : Nat}
    (located : kernel.locate now addr size writing = some (physAddr, after)) :
    kernel.SameThread after := by
  obtain ⟨middle, result, translated, -, rfl | ⟨missed, raised, handled⟩⟩ := locate_cases located
  · exact translate_sameThread translated
  · exact (translate_sameThread raised).trans
      ((pageFaultHandler_sameThread handled).trans (translate_sameThread translated))

/-- None of them makes, deletes or loads an address space. -/
theorem Reaches.sameThread (reaches : kernel.Reaches after) : kernel.SameThread after := by
  induction reaches with
  | refl => exact .refl kernel
  | translated _ made ih => exact ih.trans (translate_sameThread made)
  | faulted _ handled ih => exact ih.trans (pageFaultHandler_sameThread handled)
  | stored _ _ ih => exact ⟨ih.currentThread, ih.pageTable, ih.pageTableSize, ih.shape⟩

end VmKernel

namespace VirtMemManager

variable {virt after : VirtMemManager}

/-- What the creation of an address space does: nothing, or adding what the constructor made. -/
theorem createAddrSpace_some {files : UnixFiles} {threadId : Int} {filename : FileName}
    {stack : List Byte} {uninitialised : AddrSpace}
    (created : virt.createAddrSpace files threadId filename stack uninitialised = some after) :
    virt.InTable threadId ∧ (after = virt ∨ ∃ entry, virt.virtMemTable threadId = none ∧
      AddrSpace.new files threadId filename stack uninitialised = some entry ∧
      virt.virtPageNums + entry.getNumPages ≤ maxVirtPages ∧
      after = virt.withEntry threadId entry) := by
  -- The thread must be in the table, and have no space yet.
  unfold createAddrSpace at created
  split at created
  swap
  · cases created
  rename_i inTable
  refine ⟨inTable, ?_⟩
  split at created
  · cases created
    exact .inl rfl
  · rename_i free
    obtain ⟨entry, built, created⟩ := Option.bind_eq_some_iff.mp created
    dsimp only at created
    split at created
    · -- The new address space is dropped.
      cases created
      exact .inl rfl
    · -- There is room, and the space is entered.
      rename_i room
      cases created
      exact .inr ⟨entry, free, built, by omega, rfl⟩

/-- What the deletion of an address space does to the table: nothing, or emptying its place. -/
theorem deleteAddrSpace_some {phys phys' : PhyMemManager} {threadId : Int}
    (deleted : virt.deleteAddrSpace phys threadId = some (after, phys')) :
    (virt.getAddrSpaceOfThread threadId = none ∧ after = virt ∧ phys' = phys) ∨
    ∃ entry, virt.getAddrSpaceOfThread threadId = some entry ∧
      after = { virt with virtMemTable := Function.update virt.virtMemTable threadId none } := by
  unfold deleteAddrSpace at deleted
  split at deleted
  · rename_i absent
    cases deleted
    exact .inl ⟨absent, rfl, rfl⟩
  · rename_i entry live
    obtain ⟨cleared, -, deleted⟩ := Option.bind_eq_some_iff.mp deleted
    cases deleted
    exact .inr ⟨entry, live, rfl⟩

/-- After a deletion the other threads have the address spaces they had. -/
theorem getAddrSpaceOfThread_without (virt : VirtMemManager) (threadId other : Int) :
    VirtMemManager.getAddrSpaceOfThread
        { virt with virtMemTable := Function.update virt.virtMemTable threadId none } other =
      if other = threadId then none else virt.getAddrSpaceOfThread other := by
  by_cases same : other = threadId
  · simp [getAddrSpaceOfThread, same]
  · simp [getAddrSpaceOfThread, same]

end VirtMemManager

end Nachos
