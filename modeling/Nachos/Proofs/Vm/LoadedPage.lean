import Nachos.Proofs.Vm.BackingStore

/-! What a page that has been brought in carries of what was in its frame before. -/

namespace Nachos

namespace VmKernel

variable {kernel : VmKernel}

/-- The bytes in the frame of a page, once a page fault has been served. -/
def loadedPage (kernel : VmKernel) (now : Int) (vpn : Nat) : Option (List Byte) :=
  (kernel.pageFaultHandler now vpn).map fun served =>
    served.mainMemory.frame (Observed.frameOf served vpn)

/-- The memories that are the same up to the frame that the next page fault takes. -/
def SameButFrame (kernel : VmKernel) (now : Int) (vpn : Nat) (memory : MainMemory) : Prop :=
  ∀ served, kernel.pageFaultHandler now vpn = some served →
    ∀ page ≠ Observed.frameOf served vpn, ∀ i < pageSize,
      memory (page * pageSize + i) = kernel.mainMemory (page * pageSize + i)

/-- The page that a page fault brings in is the same, whatever was in its frame before. -/
def CarriesNothing (kernel : VmKernel) (now : Int) (vpn : Nat) : Prop :=
  ∀ memory, kernel.SameButFrame now vpn memory →
    loadedPage { kernel with mainMemory := memory } now vpn = kernel.loadedPage now vpn

/--
The page fault finds the whole page in the executable, with nothing of the frame in it.

The executable counts as it is after the page fault has written a page out. That page must not be
the one that is brought in, for another process of the same executable.
-/
def ReadsWhole (kernel : VmKernel) (vpn : Nat) : Prop :=
  ∀ space contents, kernel.getAddrSpaceOfThread kernel.currentThread = some space →
    kernel.files space.exeFileId = some contents →
    (∀ threadId, kernel.writesBack ≠ some (space.exeFileId, vpn, threadId)) ∧
    AddrSpace.fileOffset vpn + pageSize ≤ kernel.reach space.exeFileId contents.length

/-- The bytes that an executable has for a page, and zeros from where it ends. -/
def filePage (contents : List Byte) (vpn : Nat) : List Byte :=
  (List.range pageSize).map fun j => contents.getD (AddrSpace.fileOffset vpn + j) 0

/-- Getting a frame does not touch the memory. -/
theorem FrameTaken.mainMemory {page : Nat} {middle : VmKernel}
    (taken : kernel.FrameTaken page middle) : middle.mainMemory = kernel.mainMemory := by
  cases taken <;> rfl

/-- What a page fault brings in: the file's bytes, and the frame's own where the file has ended. -/
theorem loadedPage_eq {vpn : Nat} {space : AddrSpace} (table : kernel.FrameTable)
    (live : kernel.getAddrSpaceOfThread kernel.currentThread = some space)
    (below : vpn < space.numPages) (invalid : (space.pageTable vpn).valid = false) (now : Int) :
    ∃ page middle held served, kernel.FrameTaken page middle ∧
      middle.files space.exeFileId = some held ∧
      kernel.pageFaultHandler now vpn = some served ∧ Observed.frameOf served vpn = page ∧
      kernel.loadedPage now vpn = some ((List.range pageSize).map fun j =>
        held.getD (AddrSpace.fileOffset vpn + j) (kernel.mainMemory (page * pageSize + j))) := by
  -- The page fault takes a frame, opens the file and reads the page.
  obtain ⟨page, middle, after, held, taken, lives, pages, -, -, opened, served⟩ :=
    pageFaultHandler_loads table live below invalid now
  -- The thread has the page in the frame that the page fault took.
  have current : middle.currentThread = kernel.currentThread := taken.currentThread
  have resident : (middle.loaded now after held vpn page).Resident kernel.currentThread vpn page := by
    rw [resident_loaded (current ▸ lives) (pages ▸ below)]
    simp [current]
  have frame : Observed.frameOf (middle.loaded now after held vpn page) vpn = page :=
    Mirror.frameOf_eq (current ▸ resident)
  -- Each of its bytes is the file's or the frame's own.
  refine ⟨page, middle, held, _, taken, opened, served, frame, ?_⟩
  unfold loadedPage
  rw [served, Option.map_some, frame, ← taken.mainMemory]
  congr 1
  apply List.map_congr_left
  intro j member
  exact store_pageBytes middle.mainMemory held vpn page (List.mem_range.mp member)

/-- A page that is found whole has the bytes of the executable, as it was before the page fault. -/
theorem ReadsWhole.byte {page middle vpn} {space : AddrSpace} {contents held : List Byte}
    (whole : kernel.ReadsWhole vpn) (taken : kernel.FrameTaken page middle)
    (live : kernel.getAddrSpaceOfThread kernel.currentThread = some space)
    (invalid : (space.pageTable vpn).valid = false)
    (opened : kernel.files space.exeFileId = some contents)
    (now : middle.files space.exeFileId = some held) {j : Nat} (inside : j < pageSize)
    (old : Byte) :
    held.getD (AddrSpace.fileOffset vpn + j) old =
      contents.getD (AddrSpace.fileOffset vpn + j) 0 := by
  obtain ⟨foreign, covered⟩ := whole space contents live opened
  have absent : kernel.absent vpn = true := by simp [absent, live, invalid]
  -- The executable reaches over the page, so the frame's byte is not looked at.
  have reaches : AddrSpace.fileOffset vpn + j < held.length := by
    -- The file as it is now has the byte.
    rw [taken.reach opened now]
    omega
  rw [List.getD_eq_getElem _ _ reaches, ← List.getD_eq_getElem _ 0 reaches]
  -- What was written to the executable is another page of it.
  obtain ⟨after, stored, -, kept⟩ := OutgoingPage.storeAll_opened (kernel.swapsOut vpn) opened
  -- Nothing but the page that was thrown out has been written.
  rw [← taken.files absent, now] at stored
  cases stored
  refine kept _ fun outgoing member covers => ?_
  -- That is one page of one file.
  simp only [swapsOut, absent, if_true, List.mem_map, Option.mem_toList, Prod.exists] at member
  obtain ⟨file, v, threadId, wrote, rfl⟩ := member
  obtain ⟨same, above, before⟩ := covers
  dsimp only at same above before
  -- It is not the page that is read.
  have different : v ≠ vpn := by
    rintro rfl
    exact foreign threadId (same ▸ wrote)
  -- So its bytes are before or behind.
  simp only [MainMemory.frame, MainMemory.length_slice, AddrSpace.fileOffset, pageSize] at *
  rcases Nat.lt_or_gt_of_ne different with less | more <;> omega

/-- The last byte of a page that is not found whole is the frame's own. -/
theorem ReadsWhole.lastByte {page middle vpn} {space : AddrSpace} {contents held : List Byte}
    (broken : ¬ kernel.ReadsWhole vpn) (taken : kernel.FrameTaken page middle)
    (live : kernel.getAddrSpaceOfThread kernel.currentThread = some space)
    (invalid : (space.pageTable vpn).valid = false)
    (opened : kernel.files space.exeFileId = some contents)
    (now : middle.files space.exeFileId = some held) :
    held.getD (AddrSpace.fileOffset vpn + (pageSize - 1))
        (kernel.mainMemory (page * pageSize + (pageSize - 1))) =
      kernel.mainMemory (page * pageSize + (pageSize - 1)) := by
  by_cases own : ∃ threadId, kernel.writesBack = some (space.exeFileId, vpn, threadId)
  · -- The frame itself has just been written to where the page is read from.
    obtain ⟨threadId, wrote⟩ := own
    have absent : kernel.absent vpn = true := by simp [absent, live, invalid]
    have stored := taken.files absent
    rw [swapsOut, if_pos absent, wrote] at stored
    -- The file now is the one with the page written into it.
    rw [stored] at now
    simp only [Option.toList_some, List.map_cons, List.map_nil, OutgoingPage.storeAll,
      List.foldl_cons, List.foldl_nil, OutgoingPage.store, Function.update_self, opened,
      Option.map_some, Option.some.injEq] at now
    subst now
    -- The frame is the one that has been written back.
    have chosen : page = kernel.phyMemManager.swapOnePage := by
      cases taken with
      | free inRange clear =>
        rw [writesBack_free inRange clear] at wrote
        cases wrote
      | swapped full chosen => exact chosen
    have reaches : AddrSpace.fileOffset vpn + (pageSize - 1) < (writeAt contents
        (kernel.mainMemory.frame kernel.phyMemManager.swapOnePage)
        (AddrSpace.fileOffset vpn)).length := by
      simp only [writeAt, length_splice, MainMemory.frame, MainMemory.length_slice, pageSize]
      omega
    -- So the byte that is read is the one that was written from it.
    rw [List.getD_eq_getElem _ _ reaches, ← List.getD_eq_getElem _ 0 reaches, writeAt, getD_splice,
      if_pos (by simp [MainMemory.frame]), Nat.add_sub_cancel_left, MainMemory.frame,
      MainMemory.getD_slice _ _ (by decide), chosen]
  · -- The executable ends before the page does.
    refine List.getD_eq_default _ _ ?_
    by_contra reaches
    refine broken fun space' contents' live' opened' => ?_
    rw [live] at live'
    cases live'
    -- The only executable is this one.
    rw [opened] at opened'
    cases opened'
    refine ⟨fun threadId wrote => own ⟨threadId, wrote⟩, ?_⟩
    rw [← taken.reach opened now]
    -- So it reaches over the page, which has been denied.
    simp only [pageSize] at reaches ⊢
    omega

/-- What a page fault that finds the whole page brings in depends on the executable alone. -/
theorem ReadsWhole.loadedPage {vpn : Nat} {space : AddrSpace} {contents : List Byte}
    (whole : kernel.ReadsWhole vpn) (table : kernel.FrameTable)
    (live : kernel.getAddrSpaceOfThread kernel.currentThread = some space)
    (below : vpn < space.numPages) (invalid : (space.pageTable vpn).valid = false)
    (opened : kernel.files space.exeFileId = some contents) (now : Int) :
    kernel.loadedPage now vpn = some (filePage contents vpn) := by
  obtain ⟨page, middle, held, served, taken, found, -, -, loaded⟩ :=
    loadedPage_eq table live below invalid now
  rw [loaded]
  congr 1
  apply List.map_congr_left
  intro j member
  exact whole.byte taken live invalid opened found (List.mem_range.mp member) _

/-- A page fault brings in a page with nothing of its frame exactly when it finds it whole. -/
theorem carriesNothing_iff {vpn : Nat} {space : AddrSpace} (table : kernel.FrameTable)
    (live : kernel.getAddrSpaceOfThread kernel.currentThread = some space)
    (below : vpn < space.numPages) (invalid : (space.pageTable vpn).valid = false) (now : Int) :
    kernel.CarriesNothing now vpn ↔ kernel.ReadsWhole vpn := by
  -- The executable exists, and the frame table does not look at the memory.
  obtain ⟨contents, opened⟩ := table.executable kernel.currentThread space live
  have twin : ∀ memory, FrameTable { kernel with mainMemory := memory } := fun memory =>
    table.congr rfl rfl rfl
  -- If nothing of the frame matters, the page must be found whole.
  constructor
  · intro nothing
    by_contra broken
    obtain ⟨page, middle, held, served, taken, found, handled, frame, loaded⟩ :=
      loadedPage_eq table live below invalid now
    -- Change the last byte of the frame. The page that is brought in has the changed byte.
    let last := page * pageSize + (pageSize - 1)
    let memory := Function.update kernel.mainMemory last (kernel.mainMemory last + 1)
    obtain ⟨page', middle', held', -, taken', found', -, -, loaded'⟩ :=
      loadedPage_eq (twin memory) live below invalid now
    obtain rfl : page' = page := taken.unique taken' rfl
    have apart : kernel.SameButFrame now vpn memory := by
      intro other same q different i small
      rw [handled] at same
      cases same
      refine Function.update_of_ne ?_ _ _
      simp only [frame, last, pageSize] at different small ⊢
      omega
    have same := nothing memory apart
    rw [loaded, loaded'] at same
    have lasts := congrArg (fun bytes => bytes.getD (pageSize - 1) 0) (Option.some.inj same)
    simp only [List.getD_eq_getElem?_getD, List.getElem?_map,
      List.getElem?_range (show pageSize - 1 < pageSize by decide), Option.map_some,
      Option.getD_some] at lasts
    -- The last byte of the page is that of the frame, in both memories.
    simp only [← List.getD_eq_getElem?_getD] at lasts
    have own := ReadsWhole.lastByte broken taken live invalid opened found
    have own' := @ReadsWhole.lastByte { kernel with mainMemory := memory } _ _ _ _ _ _ broken taken'
      live invalid opened found'
    rw [own, own'] at lasts
    -- A byte is not the same as the one after it.
    simp only [memory, last, Function.update_self] at lasts
    generalize kernel.mainMemory _ = byte at lasts
    revert byte
    decide
  · -- A page that is found whole is the same with any memory.
    intro whole memory _
    rw [whole.loadedPage table live below invalid opened]
    exact @ReadsWhole.loadedPage { kernel with mainMemory := memory } _ _ _ whole (twin memory) live
      below invalid opened now

end VmKernel

/--
A page fault brings in a page with nothing of its frame exactly when it finds the page whole.

The page is then the one that the executable has, whoever had the frame before. The kernel has come
through any run of events, and the current thread does not have the page in memory.
-/
theorem loadedPage_carriesNothing (files : UnixFiles) (mainMemory : MainMemory) (tlb : TLB)
    (owners : Nat → PhyMemPageEntry) (currentThread : Int) (events : List (Int × VmEvent))
    (admitted : EveryStep VmKernel.step VmKernel.Admitted
      (.boot files mainMemory tlb owners currentThread) events) (kernel : VmKernel)
    (reached : replay VmKernel.step (.boot files mainMemory tlb owners currentThread) events =
      some kernel) (space : AddrSpace)
    (live : kernel.getAddrSpaceOfThread kernel.currentThread = some space) (vpn : Nat)
    (below : vpn < space.numPages) (absent : (space.pageTable vpn).valid = false) (now : Int) :
    (kernel.CarriesNothing now vpn ↔ kernel.ReadsWhole vpn) ∧
      (kernel.ReadsWhole vpn → ∀ contents, kernel.files space.exeFileId = some contents →
        kernel.loadedPage now vpn = some (VmKernel.filePage contents vpn)) := by
  -- The frame table is complete in the state that is reached.
  obtain ⟨final, ran, table⟩ := replay_progress
    (fun _ _ table admitted => VmKernel.FrameTable.step table admitted)
    (VmKernel.frameTable_boot files mainMemory tlb owners currentThread) admitted
  rw [reached] at ran
  cases ran
  -- The equivalence is that of the state.
  refine ⟨VmKernel.carriesNothing_iff table live below absent now, ?_⟩
  intro whole contents opened
  -- The page is that of the executable.
  exact whole.loadedPage table live below absent opened now

/-- An object file with one page behind its header. -/
def onePageProgram : List Byte := emptyProgram ++ .replicate 128 9

/-- The one page of a program is brought in as it is in the file. -/
theorem loadedPage_carriesNothing_onePage :
    ∃ kernel, replay VmKernel.step
        (.boot (fun _ => some onePageProgram) (fun _ => 5) (fun _ _ => ⟨0, 0, true, 0, 0⟩)
          (fun _ => ⟨0, 0⟩) 0)
        [(1, .create 0 [1] [] ⟨0, 0, [], AddrSpace.freshEntry⟩), (2, .switchTo 0)] = some kernel ∧
      kernel.CarriesNothing 3 0 ∧ kernel.loadedPage 3 0 = some (.replicate 128 9) := by
  -- The run is evaluated, and throws nothing out.
  obtain ⟨kernel, space, ran, live, below, absent, opened, nothing⟩ : ∃ kernel space,
      replay VmKernel.step
        (.boot (fun _ => some onePageProgram) (fun _ => 5) (fun _ _ => ⟨0, 0, true, 0, 0⟩)
          (fun _ => ⟨0, 0⟩) 0)
        [(1, .create 0 [1] [] ⟨0, 0, [], AddrSpace.freshEntry⟩), (2, .switchTo 0)] = some kernel ∧
      kernel.getAddrSpaceOfThread kernel.currentThread = some space ∧ 0 < space.numPages ∧
      (space.pageTable 0).valid = false ∧ kernel.files space.exeFileId = some onePageProgram ∧
      kernel.writesBack = none :=
    ⟨_, _, rfl, rfl, by decide +kernel, rfl, rfl, by decide +kernel⟩
  -- The equivalence applies to the state that is reached.
  obtain ⟨exactly, page⟩ := loadedPage_carriesNothing _ _ _ _ _ _ (by decide +kernel) kernel ran space
    live 0 below absent 3
  -- No page is evicted, and the file is long enough for the whole page.
  have whole : kernel.ReadsWhole 0 := by
    intro other contents live' opened'
    rw [live] at live'
    cases live'
    rw [opened] at opened'
    cases opened'
    -- The executable is the program, and nothing is written back.
    refine ⟨fun threadId wrote => ?_, ?_⟩
    · rw [nothing] at wrote
      cases wrote
    · unfold VmKernel.reach
      rw [nothing]
      -- The page ends where the program does, or before.
      change AddrSpace.fileOffset 0 + pageSize ≤ onePageProgram.length
      decide +kernel
  refine ⟨kernel, ran, exactly.mpr whole, ?_⟩
  rw [page whole onePageProgram opened]
  -- Its bytes are computed.
  decide +kernel

/-- A process stores a value and is deleted. Another one then takes its frame. -/
def reusedEvents (value : Word) : List (Int × VmEvent) :=
  [(1, .create 1 [1] [] ⟨0, 0, [], AddrSpace.freshEntry⟩), (2, .switchTo 1),
    (3, .write 1 0 1 value), (4, .delete 1),
    (5, .create 0 [2] [] ⟨0, 0, [], AddrSpace.freshEntry⟩), (6, .switchTo 0)]

/-- The first byte of the page that is brought in for the other process. -/
def firstByte (value : Word) : Option Byte :=
  ((replay VmKernel.step sharedBoot.kernel (reusedEvents value)).bind fun kernel =>
    kernel.loadedPage 7 0).map fun page => page.getD 0 0

/-- The other process finds the value in its page, although its file is the same and has no such page. -/
theorem loadedPage_carriesPast :
    EveryStep VmKernel.step VmKernel.Admitted sharedBoot.kernel (reusedEvents 7) ∧
      EveryStep VmKernel.step VmKernel.Admitted sharedBoot.kernel (reusedEvents 8) ∧
      firstByte 7 = some 7 ∧ firstByte 8 = some 8 :=
  ⟨by decide +kernel, by decide +kernel, by decide +kernel, by decide +kernel⟩

end Nachos
