import Nachos.Proofs.Vm.OwnWrites
import Nachos.Proofs.Vm.Isolation

/-! What becomes of the executables, which are also what pages are thrown out to. -/

namespace Nachos

/-- A page on its way out: the executable it goes to, its number, and its bytes in memory. -/
structure OutgoingPage where
  exeFileId : FileName
  vpn : Nat
  bytes : List Byte
  deriving DecidableEq

namespace OutgoingPage

/-- The files once the page is laid over its executable. -/
def store (files : UnixFiles) (page : OutgoingPage) : UnixFiles :=
  Function.update files page.exeFileId
    ((files page.exeFileId).map fun contents =>
      writeAt contents page.bytes (AddrSpace.fileOffset page.vpn))

/-- The offsets of a file that a page of it goes to. -/
def Covers (page : OutgoingPage) (name : FileName) (offset : Nat) : Prop :=
  page.exeFileId = name ∧ AddrSpace.fileOffset page.vpn ≤ offset ∧
    offset < AddrSpace.fileOffset page.vpn + page.bytes.length

/-- The files once these pages are laid over their executables, one after the other. -/
def storeAll (files : UnixFiles) (pages : List OutgoingPage) : UnixFiles := pages.foldl store files

variable {files : UnixFiles} {name : FileName} {contents : List Byte}

/-- A file that is there stays there, and does not get shorter, when a page is laid over a file. -/
theorem store_opened (opened : files name = some contents) (page : OutgoingPage) :
    ∃ after, store files page name = some after ∧ contents.length ≤ after.length ∧
      ∀ offset, ¬ page.Covers name offset → after.getD offset 0 = contents.getD offset 0 := by
  unfold store
  -- The page is written into this file, or into another.
  by_cases same : name = page.exeFileId
  · subst same
    refine ⟨writeAt contents page.bytes (AddrSpace.fileOffset page.vpn), by simp [opened], ?_, ?_⟩
    · -- Written over, the file is as long as before or longer.
      unfold writeAt
      rw [length_splice]
      exact Nat.le_max_left _ _
    · -- A byte that the page does not cover stays.
      intro offset outside
      unfold writeAt
      rw [getD_splice, if_neg]
      intro covered
      exact outside ⟨rfl, covered⟩
  · -- Another file stays as it is.
    refine ⟨contents, ?_, Nat.le_refl _, fun _ _ => rfl⟩
    rw [Function.update_of_ne same, opened]

/-- Pages laid over a file leave the bytes that none of them covers. -/
theorem storeAll_opened (pages : List OutgoingPage) : ∀ {files : UnixFiles} {contents : List Byte},
    files name = some contents →
      ∃ after, storeAll files pages name = some after ∧ contents.length ≤ after.length ∧
        ∀ offset, (∀ page ∈ pages, ¬ page.Covers name offset) →
          after.getD offset 0 = contents.getD offset 0 := by
  induction pages with
  | nil => exact fun opened => ⟨_, opened, Nat.le_refl _, fun _ _ => rfl⟩
  | cons page rest ih =>
    intro files contents opened
    obtain ⟨middle, stored, longer, kept⟩ := store_opened opened page
    obtain ⟨after, all, longer', kept'⟩ := ih stored
    refine ⟨after, all, Nat.le_trans longer longer', fun offset outside => ?_⟩
    rw [kept' offset fun other member => outside other (List.mem_cons_of_mem _ member)]
    exact kept offset (outside page List.mem_cons_self)

/-- Pages of other files leave a file as it is. -/
theorem storeAll_other (pages : List OutgoingPage) : ∀ {files : UnixFiles},
    (∀ page ∈ pages, page.exeFileId ≠ name) → storeAll files pages name = files name := by
  induction pages with
  | nil => exact fun _ => rfl
  | cons page rest ih =>
    intro files others
    have first : store files page name = files name :=
      Function.update_of_ne (others page List.mem_cons_self).symm _ _
    exact (ih fun other member => others other (List.mem_cons_of_mem _ member)).trans first

end OutgoingPage

namespace VmKernel

variable {kernel : VmKernel}

/-- The page that a page fault throws out dirty, if it is one that brings a page in. -/
def swapsOut (kernel : VmKernel) (vpn : Nat) : List OutgoingPage :=
  if kernel.absent vpn then
    kernel.writesBack.toList.map fun (file, vpn, _) =>
      ⟨file, vpn, kernel.mainMemory.frame kernel.phyMemManager.swapOnePage⟩
  else []

/-- The page that an access throws out dirty, if it raises a page fault. -/
def accessSwapsOut (kernel : VmKernel) (addr : Word) (size : Nat) (writing : Bool) :
    List OutgoingPage :=
  if kernel.pagesIn addr size writing then kernel.swapsOut (addr.toNat / pageSize) else []

/-- The page that an event throws out dirty. -/
def evicts (kernel : VmKernel) : VmEvent → List OutgoingPage
  | .fault vpn => kernel.swapsOut vpn
  | .read _ addr size => kernel.accessSwapsOut addr size false
  | .write _ addr size _ => kernel.accessSwapsOut addr size true
  | _ => []

/-- The pages that a run of events throws out dirty, in their order. -/
def evictions : VmKernel → List (Int × VmEvent) → List OutgoingPage
  | _, [] => []
  | kernel, timed :: rest =>
    kernel.evicts timed.2 ++
      match kernel.step timed with
      | some next => next.evictions rest
      | none => []

/-- Getting a frame writes the page that is thrown out, and no other. -/
theorem FrameTaken.files {page : Nat} {middle : VmKernel} (taken : kernel.FrameTaken page middle)
    {vpn : Nat} (absent : kernel.absent vpn = true) :
    middle.files = OutgoingPage.storeAll kernel.files (kernel.swapsOut vpn) := by
  unfold swapsOut
  rw [if_pos absent]
  -- A free frame throws nothing out, and a page that is clean is thrown out without a write.
  cases taken with
  | free inRange clear =>
    rw [writesBack_free inRange clear]
    rfl
  -- The victim is written to its own place, if it is dirty.
  | @swapped owner v space contents full chosen _ recorded live _ _ _ opened =>
    rw [writesBack_swapped full chosen recorded live]
    cases dirty : (space.pageTable v).dirty with
    | false => simp [evicted, dirty, OutgoingPage.storeAll]
    | true => simp [evicted, dirty, OutgoingPage.storeAll, OutgoingPage.store, opened, ← chosen]

/-- A page fault writes the page that it throws out dirty, and nothing else, to a file. -/
theorem pageFaultHandler_files (table : kernel.FrameTable) {now : Int} {vpn : Nat}
    {next : VmKernel} (handled : kernel.pageFaultHandler now vpn = some next) :
    next.files = OutgoingPage.storeAll kernel.files (kernel.swapsOut vpn) := by
  obtain ⟨space, live, below⟩ := pageFaultHandler_some handled
  -- A page that is in memory already makes the handler do nothing.
  cases valid : (space.pageTable vpn).valid with
  | true =>
    have present : kernel.absent vpn = false := by simp [absent, live, valid]
    rw [pageFaultHandler_valid live below valid] at handled
    cases handled
    simp [swapsOut, present, OutgoingPage.storeAll]
  -- After the frame has been taken, nothing more is written.
  | false =>
    have absent : kernel.absent vpn = true := by simp [absent, live, valid]
    obtain ⟨page, middle, after, contents, taken, -, -, -, -, -, served⟩ :=
      pageFaultHandler_loads table live below valid now
    rw [served] at handled
    cases handled
    exact taken.files absent

/-- A translation writes to no file. -/
theorem translate_files {virtAddr : Word} {size : Nat} {writing : Bool} {physAddr : Int}
    {next : VmKernel}
    (translated : kernel.translate virtAddr size writing = some (.ok physAddr, next)) :
    next.files = kernel.files := by
  rcases translate_cases translated with ⟨-, -, rfl⟩ | ⟨middle, rfl, walked⟩
  · rfl
  · rcases walk_cases walked with ⟨_, -, rfl, -⟩ | ⟨threadId, space, -, -, -, -, -, -, rfl⟩
    · rfl
    · unfold VmKernel.walked
      cases writing <;> rfl

/-- An access that finds its page writes to a file as its page fault does, if it raises one. -/
theorem locate_files (table : kernel.FrameTable) {now : Int} {addr : Word} {size : Nat}
    {writing : Bool} {physAddr : Nat} {next : VmKernel}
    (located : kernel.locate now addr size writing = some (physAddr, next)) :
    next.files = OutgoingPage.storeAll kernel.files (kernel.accessSwapsOut addr size writing) := by
  -- Either the first translation succeeds, or its page fault is served and the second one does.
  obtain ⟨middle, result, translated, -, rfl | ⟨missed, raised, handled⟩⟩ := locate_cases located
  · -- The first translation succeeds, and nothing is thrown out.
    have quiet : middle.pagesIn addr size writing = false := by
      unfold pagesIn
      rw [translated]
    rw [translate_files translated, accessSwapsOut, quiet]
    rfl
  · -- The page fault writes what it throws out.
    obtain ⟨tlb, rfl⟩ := translate_error raised
    have aged : FrameTable { kernel with tlb } := table.congr rfl rfl rfl
    have written := pageFaultHandler_files aged handled
    rw [translate_files translated, written]
    -- Which page is thrown out does not depend on the TLB.
    have same : swapsOut { kernel with tlb } (addr.toNat / pageSize) =
        kernel.swapsOut (addr.toNat / pageSize) := rfl
    rw [same]
    unfold accessSwapsOut pagesIn
    rw [raised]
    -- A page that is there throws nothing out either.
    cases absent : kernel.absent (addr.toNat / pageSize) with
    | true => rfl
    | false => simp [swapsOut, absent, OutgoingPage.storeAll]

/-- An event writes the page that it throws out dirty, and nothing else, to a file. -/
theorem step_files (table : kernel.FrameTable) {timed : Int × VmEvent} {next : VmKernel}
    (stepped : kernel.step timed = some next) :
    next.files = OutgoingPage.storeAll kernel.files (kernel.evicts timed.2) := by
  obtain ⟨now, event⟩ := timed
  obtain ⟨⟨value, reached⟩, served, same⟩ := Option.map_eq_some_iff.mp stepped
  cases same
  -- By cases on the event: only page faults write to a file.
  cases event with
  | create =>
    obtain ⟨_, -, served⟩ := Option.bind_eq_some_iff.mp served
    cases served
    rfl
  | delete =>
    obtain ⟨_, -, served⟩ := Option.bind_eq_some_iff.mp served
    cases served
    rfl
  | switchTo threadId =>
    cases served
    unfold runThread
    dsimp only
    split <;> rfl
  | fault vpn =>
    obtain ⟨_, handled, served⟩ := Option.bind_eq_some_iff.mp served
    cases served
    exact pageFaultHandler_files table handled
  -- A read may have a page fault.
  | read threadId addr size =>
    obtain ⟨physAddr, located⟩ := serve_read served
    exact locate_files table located
  | write threadId addr size value =>
    -- The store itself concerns the memory alone.
    obtain ⟨physAddr, found, mainMemory, located, rfl⟩ := serve_write served
    change found.files = _
    exact locate_files table located

/-- Along a run of events, the pages thrown out dirty are all that is written to files. -/
theorem evictions_files (events : List (Int × VmEvent)) : ∀ {kernel final : VmKernel},
    kernel.FrameTable → EveryStep VmKernel.step VmKernel.Admitted kernel events →
    replay VmKernel.step kernel events = some final →
    final.files = OutgoingPage.storeAll kernel.files (kernel.evictions events) := by
  -- By induction on the events, each of which adds what it throws out.
  induction events with
  | nil =>
    intro kernel final _ _ ran
    cases ran
    rfl
  | cons timed rest ih =>
    intro kernel final table admitted ran
    obtain ⟨next, stepped, later⟩ := table.step admitted.1
    rw [replay_cons stepped] at ran
    rw [ih later (admitted.2 next stepped) ran, step_files table stepped]
    simp only [evictions, stepped, OutgoingPage.storeAll, List.foldl_append]

end VmKernel

/--
A run changes the executables by the pages that it throws out dirty, and by nothing else.

Each of these pages is laid over its own place in the executable of its process, in the order in
which they are thrown out.
-/
theorem executables_asSwappedTo (files : UnixFiles) (mainMemory : MainMemory) (tlb : TLB)
    (owners : Nat → PhyMemPageEntry) (currentThread : Int) (events : List (Int × VmEvent))
    (admitted : EveryStep VmKernel.step VmKernel.Admitted
      (.boot files mainMemory tlb owners currentThread) events) :
    ∃ final, replay VmKernel.step (.boot files mainMemory tlb owners currentThread) events =
        some final ∧
      let pages := (VmKernel.boot files mainMemory tlb owners currentThread).evictions events
      final.files = OutgoingPage.storeAll files pages ∧
      ∀ name contents, files name = some contents →
        ((∀ page ∈ pages, page.exeFileId ≠ name) → final.files name = some contents) ∧
        ∃ after, final.files name = some after ∧ contents.length ≤ after.length ∧
          ∀ offset, (∀ page ∈ pages, ¬ page.Covers name offset) →
            after.getD offset 0 = contents.getD offset 0 := by
  -- The frame table is complete in every state of the run.
  have table := VmKernel.frameTable_boot files mainMemory tlb owners currentThread
  obtain ⟨final, ran, -⟩ := replay_progress
    (fun _ _ table admitted => VmKernel.FrameTable.step table admitted) table admitted
  -- What the files hold is what the evictions have stored, in their order.
  have written := VmKernel.evictions_files events table admitted ran
  refine ⟨final, ran, written, ?_⟩
  -- A file that none of the pages belongs to stays, and any other keeps what they do not cover.
  intro name contents opened
  rw [written]
  refine ⟨?_, OutgoingPage.storeAll_opened _ opened⟩
  intro others
  rw [← opened]
  exact OutgoingPage.storeAll_other _ others

/-- A machine on which a process has more pages than there are frames. -/
def hollowBoot : VmKernel :=
  .boot (fun _ => some (hollowProgram 150)) (fun _ => 0) (fun _ _ => ⟨0, 0, true, 0, 0⟩)
    (fun _ => ⟨0, 0⟩) 0

/-- A process stores a byte in its first page, and then uses so many other pages. -/
def dirtyingEvents (others : Nat) : List (Int × VmEvent) :=
  [(1, .create 0 [1] [] ⟨0, 0, [], AddrSpace.freshEntry⟩), (2, .switchTo 0), (3, .write 0 0 1 7)] ++
    (List.range others).map fun i : Nat => (((4 + i : Nat) : Int), VmEvent.fault (i + 1))

/-- As long as there are free frames, the executable stays what it was. -/
theorem executables_asSwappedTo_roomy :
    ∃ final, replay VmKernel.step hollowBoot (dirtyingEvents 2) = some final ∧
      final.files [1] = some (hollowProgram 150) := by
  have nothing : hollowBoot.evictions (dirtyingEvents 2) = [] := by decide +kernel
  obtain ⟨final, ran, -, each⟩ := executables_asSwappedTo (fun _ => some (hollowProgram 150))
    (fun _ => 0) (fun _ _ => ⟨0, 0, true, 0, 0⟩) (fun _ => ⟨0, 0⟩) 0 (dirtyingEvents 2)
    (by decide +kernel)
  refine ⟨final, ran, (each [1] (hollowProgram 150) rfl).1 ?_⟩
  intro page member
  rw [show (VmKernel.boot _ _ _ _ _).evictions _ = [] from nothing] at member
  cases member

/-- Once there are none left, the byte that the process has stored is in its executable. -/
theorem executable_overwritten :
    EveryStep VmKernel.step VmKernel.Admitted hollowBoot (dirtyingEvents 128) ∧
      ∃ final contents, replay VmKernel.step hollowBoot (dirtyingEvents 128) = some final ∧
        hollowBoot.files [1] = some (hollowProgram 150) ∧ final.files [1] = some contents ∧
        contents ≠ hollowProgram 150 := by
  -- The whole run is evaluated at once, with the check that every event is admitted.
  have evaluated : EveryStep VmKernel.step VmKernel.Admitted hollowBoot (dirtyingEvents 128) ∧
      ((replay VmKernel.step hollowBoot (dirtyingEvents 128)).bind fun final =>
        (final.files [1]).map fun contents => contents.getD 52 0) = some 7 := by decide +kernel
  obtain ⟨admitted, evaluated⟩ := evaluated
  -- The byte that was stored differs from the one that the program had.
  obtain ⟨final, ran, evaluated⟩ := Option.bind_eq_some_iff.mp evaluated
  obtain ⟨contents, opened, stored⟩ := Option.map_eq_some_iff.mp evaluated
  refine ⟨admitted, final, contents, ran, rfl, opened, ?_⟩
  rintro rfl
  cases stored

end Nachos
