import Nachos.Proofs.Vm.Quota

/-! When the creation of an address space reports a program that cannot be used. -/

namespace Nachos

namespace AddrSpace

/-- A program that takes at least one page, whatever the memory held that its header is read to. -/
def Usable (files : UnixFiles) (filename : FileName) : Prop :=
  ∃ contents, files filename = some contents ∧ ∀ stack,
    (header contents stack).noffMagic = Nachos.noffMagic ∧
    (header contents stack).codeSize + (header contents stack).readonlyDataSize +
      (header contents stack).initDataSize + (header contents stack).uninitDataSize +
      userStackSize ≠ 0

/-- A program takes no page at all only if the sum of its sizes has wrapped around to nothing. -/
theorem pagesOf_pos_iff (noffH : NoffHeader) :
    0 < pagesOf noffH ↔ noffH.codeSize + noffH.readonlyDataSize + noffH.initDataSize +
      noffH.uninitDataSize + userStackSize ≠ 0 := by
  unfold pagesOf divRoundUp
  dsimp only
  generalize noffH.codeSize + noffH.readonlyDataSize + noffH.initDataSize + noffH.uninitDataSize +
    userStackSize = size
  have zero : size = 0 ↔ size.toNat = 0 := BitVec.toNat_eq.trans Iff.rfl
  rw [ne_eq, zero]
  simp only [pageSize]
  split <;> omega

/-- Nothing is left of the memory under the header of a file that has all of it. -/
theorem header_of_long {contents : List Byte} (long : sizeofNoffHeader ≤ contents.length)
    (stack : List Byte) : header contents stack = .ofBytes contents := by
  -- The file has all bytes of the header.
  have front : (contents.take sizeofNoffHeader).length = sizeofNoffHeader := by
    rw [List.length_take]
    omega
  -- Every word of the header is in the bytes that were read.
  have word : ∀ offset, offset + 4 ≤ sizeofNoffHeader →
      wordAt (contents.take sizeofNoffHeader ++ stack.drop sizeofNoffHeader) offset =
        wordAt contents offset := by
    intro offset inside
    have inFront : offset + 4 ≤ (contents.take sizeofNoffHeader).length := by rwa [front]
    have whole := wordAt_append_left inFront (contents.drop sizeofNoffHeader)
    rw [List.take_append_drop] at whole
    rw [wordAt_append_left inFront, whole]
  -- The header is made of five of these words.
  unfold header readAt NoffHeader.ofBytes
  dsimp only
  rw [List.drop_zero, front, word 0 (by decide), word 12 (by decide), word 24 (by decide),
    word 36 (by decide), word 48 (by decide)]

/-- As many pages as a program can take are handed out as they are. -/
theorem getNumPages_eq {space : AddrSpace} {noffH : NoffHeader}
    (pages : space.numPages = pagesOf noffH) : space.getNumPages = pagesOf noffH := by
  have small : pagesOf noffH < 2 ^ 31 := by
    unfold pagesOf divRoundUp
    dsimp only
    generalize noffH.codeSize + noffH.readonlyDataSize + noffH.initDataSize +
      noffH.uninitDataSize + userStackSize = size
    have fits := size.isLt
    simp only [pageSize]
    split <;> omega
  unfold getNumPages
  rw [pages, BitVec.toInt_eq_toNat_cond, BitVec.toNat_ofNat, Nat.mod_eq_of_lt (by omega)]
  rw [if_pos (by omega)]

end AddrSpace

namespace VirtMemManager

variable {virt : VirtMemManager} {files : UnixFiles} {threadId : Int} {filename : FileName}

/-- The file opens, and the program takes more pages than the quota has left. -/
def ExceedsQuota (virt : VirtMemManager) (files : UnixFiles) (filename : FileName)
    (stack : List Byte) : Prop :=
  ∃ contents ∈ files filename,
    maxVirtPages < virt.virtPageNums + AddrSpace.pagesOf (AddrSpace.header contents stack)

/-- Once the file is open, that is a matter of its pages. -/
theorem exceedsQuota_iff {contents stack : List Byte} (opened : files filename = some contents) :
    virt.ExceedsQuota files filename stack ↔
      maxVirtPages < virt.virtPageNums + AddrSpace.pagesOf (AddrSpace.header contents stack) := by
  unfold ExceedsQuota
  rw [opened]
  constructor
  · rintro ⟨_, same, exceeds⟩
    cases same
    exact exceeds
  · exact fun exceeds => ⟨contents, rfl, exceeds⟩

/--
What the creation of an address space is to return.

A program that cannot be opened or is too large leaves everything as it was, which returns the
null pointer of the free place. Any other gets at least one page, and has no page in memory.
-/
def Reports (virt : VirtMemManager) (files : UnixFiles) (threadId : Int) (filename : FileName)
    (stack : List Byte) (uninitialised : AddrSpace) : Prop :=
  ((files filename = none ∨ virt.ExceedsQuota files filename stack) →
    virt.createAddrSpace files threadId filename stack uninitialised = some virt) ∧
  (¬ (files filename = none ∨ virt.ExceedsQuota files filename stack) →
    ∃ after entry,
      virt.createAddrSpace files threadId filename stack uninitialised = some after ∧
      after.getAddrSpaceOfThread threadId = some entry ∧ 0 < entry.numPages ∧
      ∀ i < entry.numPages, (entry.pageTable i).valid = false)

/-- At a free place, the new address space is entered unless the quota has no room for it. -/
theorem createAddrSpace_free (inTable : virt.InTable threadId)
    (free : virt.getAddrSpaceOfThread threadId = none) (stack : List Byte)
    (uninitialised : AddrSpace) :
    virt.createAddrSpace files threadId filename stack uninitialised =
      (AddrSpace.new files threadId filename stack uninitialised).map fun entry =>
        if virt.virtPageNums + entry.getNumPages > maxVirtPages then virt
        else virt.withEntry threadId entry := by
  unfold getAddrSpaceOfThread at free
  -- The place is in the table, and is free.
  rw [if_pos inTable] at free
  unfold createAddrSpace
  rw [if_pos inTable, free]
  -- The constructor aborts, or builds an entry that fits the quota or not.
  cases AddrSpace.new files threadId filename stack uninitialised with
  | none => rfl
  | some entry =>
    simp only [Option.bind_eq_bind, Option.bind_some, Option.map_some]
    split <;> rfl

/-- A usable program is reported as it should be. -/
theorem Reports.of_usable (inTable : virt.InTable threadId)
    (free : virt.getAddrSpaceOfThread threadId = none) (usable : AddrSpace.Usable files filename)
    (stack : List Byte) (uninitialised : AddrSpace) :
    virt.Reports files threadId filename stack uninitialised := by
  obtain ⟨contents, opened, header⟩ := usable
  -- The constructor builds the space that the header asks for.
  obtain ⟨magic, some⟩ := header stack
  have pages := (AddrSpace.pagesOf_pos_iff (AddrSpace.header contents stack)).mpr some
  obtain ⟨entry, built, numPages, fresh⟩ : ∃ entry : AddrSpace,
      AddrSpace.new files threadId filename stack uninitialised = Option.some entry ∧
      entry.numPages = AddrSpace.pagesOf (AddrSpace.header contents stack) ∧
      entry.pageTable = AddrSpace.freshEntry := by
    simp [AddrSpace.new, opened, magic]
  -- Whether the space is entered depends on the quota alone.
  have made : virt.createAddrSpace files threadId filename stack uninitialised =
      Option.some (if virt.virtPageNums + entry.getNumPages > maxVirtPages then virt
        else virt.withEntry threadId entry) := by
    rw [createAddrSpace_free inTable free, built, Option.map_some]
  rw [AddrSpace.getNumPages_eq numPages] at made
  unfold Reports
  rw [exceedsQuota_iff opened]
  -- By whether there is something to report.
  refine ⟨fun refused => ?_, fun admitted => ?_⟩
  · -- The file is there, so it is the quota that refuses.
    rcases refused with missing | tooLarge
    · rw [opened] at missing
      cases missing
    · rw [made, if_pos tooLarge]
  · -- There is room, so the new space is entered, with no page in memory.
    have room := fun tooLarge => admitted (.inr tooLarge)
    refine ⟨virt.withEntry threadId entry, entry, ?_, ?_, by omega, fun i _ => ?_⟩
    · rw [made, if_neg room]
    · rw [getAddrSpaceOfThread_withEntry inTable, if_pos rfl]
    · rw [fresh]
      rfl

/-- Whatever is reported as it should be, with any memory, is a usable program. -/
theorem Reports.usable (inTable : virt.InTable threadId)
    (free : virt.getAddrSpaceOfThread threadId = none) (room : virt.virtPageNums ≤ maxVirtPages)
    (reports : ∀ stack uninitialised, virt.Reports files threadId filename stack uninitialised) :
    AddrSpace.Usable files filename := by
  -- A program that is not usable is missing, or has the wrong header.
  cases opened : files filename with
  | none =>
    -- Let the memory of the new object hold no pages: the object is entered as it is.
    let uninitialised : AddrSpace := ⟨0, 0, [], AddrSpace.freshEntry⟩
    have unchanged := (reports [] uninitialised).1 (.inl opened)
    rw [createAddrSpace_free inTable free] at unchanged
    simp only [AddrSpace.new, opened, Option.map_some, Option.some.injEq] at unchanged
    have none' : uninitialised.getNumPages = 0 := rfl
    rw [none', if_neg (by omega)] at unchanged
    have found := getAddrSpaceOfThread_withEntry inTable uninitialised threadId
    rw [unchanged, free, if_pos rfl] at found
    cases found
  | some contents =>
    refine ⟨contents, opened, fun stack => ?_⟩
    let uninitialised : AddrSpace := ⟨0, 0, [], AddrSpace.freshEntry⟩
    obtain ⟨refused, admitted⟩ := reports stack uninitialised
    by_cases magic : (AddrSpace.header contents stack).noffMagic = noffMagic
    · refine ⟨magic, (AddrSpace.pagesOf_pos_iff _).mp ?_⟩
      by_contra empty
      have zero : AddrSpace.pagesOf (AddrSpace.header contents stack) = 0 := by omega
      -- No pages at all fit the quota, so an address space without pages is made.
      obtain ⟨after, entry, created, live, pages, -⟩ := admitted (by
        rw [opened, exceedsQuota_iff opened, zero]
        exact not_or.mpr ⟨Option.some_ne_none contents, by omega⟩)
      -- The manager refuses the space, or enters it without pages.
      obtain ⟨-, rfl | ⟨made, -, built, -, rfl⟩⟩ := createAddrSpace_some created
      · -- A refused space is not found.
        rw [free] at live
        cases live
      · -- An entered space has the pages of its header, which are none.
        simp only [AddrSpace.new, opened, if_pos magic, Option.some.injEq] at built
        rw [getAddrSpaceOfThread_withEntry inTable, if_pos rfl, Option.some.injEq] at live
        rw [← live, ← built] at pages
        dsimp only at pages
        omega
    · -- The constructor does not come back, so nothing is reported.
      have aborts : virt.createAddrSpace files threadId filename stack uninitialised = none := by
        rw [createAddrSpace_free inTable free]
        simp only [AddrSpace.new, opened, if_neg magic, Option.map_none]
      rw [aborts] at refused admitted
      -- Either report would come back.
      by_cases failing : files filename = none ∨ virt.ExceedsQuota files filename stack
      · cases refused failing
      · obtain ⟨after, entry, created, -⟩ := admitted failing
        cases created

end VirtMemManager

namespace VmKernel

variable {kernel after : VmKernel}

/-- No event makes the count of pages exceed the limit. -/
theorem step_withinQuota (within : kernel.virtMemManager.virtPageNums ≤ maxVirtPages)
    {timed : Int × VmEvent} (stepped : kernel.step timed = some after) :
    after.virtMemManager.virtPageNums ≤ maxVirtPages := by
  obtain ⟨now, event⟩ := timed
  obtain ⟨⟨result, last⟩, served, rfl⟩ := Option.map_eq_some_iff.mp stepped
  -- Accesses and page faults do not count pages.
  have accessed : accesses event = true →
      last.virtMemManager.virtPageNums ≤ maxVirtPages := by
    intro access
    rw [(serve_reaches access served).sameThread.shape.count]
    exact within
  -- By cases on the event, of which only a creation adds pages.
  cases event with
  | create threadId filename stack uninitialised =>
    obtain ⟨virt, created, served⟩ := Option.bind_eq_some_iff.mp served
    cases served
    obtain ⟨-, rfl | ⟨entry, -, -, room, rfl⟩⟩ := VirtMemManager.createAddrSpace_some created
    · exact within
    · exact room
  | delete threadId =>
    obtain ⟨⟨virt, phys⟩, deleted, served⟩ := Option.bind_eq_some_iff.mp served
    cases served
    -- A deletion does not count back.
    rcases VirtMemManager.deleteAddrSpace_some deleted with ⟨-, rfl, -⟩ | ⟨entry, -, rfl⟩
    · exact within
    · exact within
  | switchTo threadId =>
    cases served
    unfold runThread
    dsimp only
    split <;> exact within
  | fault vpn => exact accessed rfl
  | read threadId addr size => exact accessed rfl
  | write threadId addr size value => exact accessed rfl

end VmKernel

/--
The creation of an address space reports every program that cannot be used exactly if there is
nothing to report: the file opens as an object file whose sizes do not add up to zero.
-/
theorem createAddrSpace_reports_iff (files : UnixFiles) (mainMemory : MainMemory) (tlb : TLB)
    (owners : Nat → PhyMemPageEntry) (currentThread : Int) (events : List (Int × VmEvent))
    (kernel : VmKernel)
    (reached : replay VmKernel.step (.boot files mainMemory tlb owners currentThread) events =
      some kernel) (threadId : Int) (inTable : kernel.virtMemManager.InTable threadId)
    (free : kernel.getAddrSpaceOfThread threadId = none) (filename : FileName) :
    (∀ stack uninitialised,
      kernel.virtMemManager.Reports kernel.files threadId filename stack uninitialised) ↔
    AddrSpace.Usable kernel.files filename := by
  -- The count starts at 0.
  have start : (VmKernel.boot files mainMemory tlb owners
      currentThread).virtMemManager.virtPageNums ≤ maxVirtPages := by
    change (0 : Int) ≤ maxVirtPages
    decide
  -- No event makes it exceed the limit.
  have within : kernel.virtMemManager.virtPageNums ≤ maxVirtPages := replay_invariant
    (fun _ _ _ within stepped => VmKernel.step_withinQuota within stepped) start reached
  exact ⟨VirtMemManager.Reports.usable inTable free within,
    fun usable => .of_usable inTable free usable⟩

/-- A second process is created for an executable of nothing but a header. -/
theorem createAddrSpace_reports_second : ∃ kernel, replay VmKernel.step
      (.boot (fun _ => some emptyProgram) (fun _ => 0) (fun _ _ => ⟨0, 0, true, 0, 0⟩)
        (fun _ => ⟨5, 5⟩) 0)
      [(1, .create 0 [1] [] ⟨0, 0, [], AddrSpace.freshEntry⟩)] = some kernel ∧
    ∀ stack uninitialised,
      kernel.virtMemManager.Reports kernel.files 1 [2] stack uninitialised := by
  -- The header is complete, so nothing of the memory under it is left.
  have usable : AddrSpace.Usable (fun _ => some emptyProgram) [2] := by
    refine ⟨emptyProgram, rfl, fun stack => ?_⟩
    rw [AddrSpace.header_of_long (by decide)]
    decide
  -- So the equivalence gives the report.
  refine ⟨_, rfl, ?_⟩
  exact (createAddrSpace_reports_iff (fun _ => some emptyProgram) (fun _ => 0)
    (fun _ _ => ⟨0, 0, true, 0, 0⟩) (fun _ => ⟨5, 5⟩) 0
    [(1, .create 0 [1] [] ⟨0, 0, [], AddrSpace.freshEntry⟩)] _ rfl 1 (by decide) rfl [2]).mpr usable

/-- A file that does not open, and a new object in memory that was last used for three pages. -/
theorem createAddrSpace_entersUnopened :
    let kernel := VmKernel.boot (fun _ => none) (fun _ => 0) (fun _ _ => ⟨0, 0, true, 0, 0⟩)
      (fun _ => ⟨0, 0⟩) 0
    let uninitialised : AddrSpace := ⟨7, 3, [9], AddrSpace.freshEntry⟩
    kernel.getAddrSpaceOfThread 0 = none ∧ kernel.files [1] = none ∧
    (∃ after, kernel.virtMemManager.createAddrSpace kernel.files 0 [1] [] uninitialised =
        some after ∧
      after.getAddrSpaceOfThread 0 = some uninitialised ∧ after.virtPageNums = 3) ∧
    ¬ kernel.virtMemManager.Reports kernel.files 0 [1] [] uninitialised := by
  intro kernel uninitialised
  have entered : ∃ after, kernel.virtMemManager.createAddrSpace kernel.files 0 [1] []
      uninitialised = some after ∧
      after.getAddrSpaceOfThread 0 = some uninitialised ∧ after.virtPageNums = 3 :=
    ⟨_, rfl, rfl, rfl⟩
  refine ⟨rfl, rfl, entered, fun reports => ?_⟩
  -- The space was entered as the memory happened to be, with 3 pages.
  obtain ⟨after, created, -, pages⟩ := entered
  rw [reports.1 (.inl rfl)] at created
  cases created
  cases pages

end Nachos
