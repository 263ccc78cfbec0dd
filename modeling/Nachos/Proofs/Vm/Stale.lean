import Nachos.Proofs.Vm.OwnWrites
import Nachos.Proofs.Vm.Resolve

/-! When a mapping that is withdrawn leaves the TLB, and when it stays behind. -/

namespace Nachos

namespace TLB

variable {tlb : TLB} {threadId : Int} {vpn : Nat}

/-- Some valid entry has this thread, and the set and the tag of this page. -/
def MapsFor (tlb : TLB) (threadId : Int) (vpn : Nat) : Prop :=
  ∃ way, (tlb (index vpn) way).valid = true ∧ (tlb (index vpn) way).tag = tagOf vpn ∧
    (tlb (index vpn) way).threadId = threadId

instance (tlb : TLB) (threadId : Int) (vpn : Nat) : Decidable (tlb.MapsFor threadId vpn) :=
  inferInstanceAs (Decidable (∃ _ : Fin 4, _))

/-- A TLB that differs in the ages of its entries alone maps the same pages. -/
theorem MapsFor.of_aged {other : TLB} (maps : other.MapsFor threadId vpn)
    (aged : ∀ way, ∃ lru, other (index vpn) way = { tlb (index vpn) way with lru }) :
    tlb.MapsFor threadId vpn := by
  obtain ⟨way, valid, tag, thread⟩ := maps
  obtain ⟨lru, same⟩ := aged way
  rw [same] at valid tag thread
  exact ⟨way, valid, tag, thread⟩

/-- A translation through the TLB changes the age of an entry alone. -/
theorem translate_aged (tlb : TLB) (virtAddr : Nat) (set way : Fin 4) :
    ∃ lru, (tlb.translate virtAddr).2 set way = { tlb set way with lru } := by
  -- On a miss nothing changes.
  cases found : tlb.hit (virtAddr / pageSize) with
  | none =>
    rw [translate_miss found]
    exact ⟨(tlb set way).lru, rfl⟩
  | some used =>
    rw [translate_hit found]
    dsimp only [put]
    -- Only the entry that was found changes, and of that only its age, which starts again.
    by_cases row : set = index (virtAddr / pageSize)
    · subst row
      rw [Function.update_self]
      by_cases column : way = used
      · subst column
        rw [Function.update_self]
        exact ⟨0, rfl⟩
      · -- Another way of the set is only older, or as it was.
        rw [Function.update_of_ne column]
        exact ⟨_, rfl⟩
    · -- Another set is as it was.
      rw [Function.update_of_ne row]
      exact ⟨_, rfl⟩

/-- A translation that is installed is the only new one. -/
theorem MapsFor.of_update {virtAddr : Nat} {pageFrame currentPid : Int} (bounded : vpn < 2 ^ 32)
    (alsoBounded : virtAddr / pageSize < 2 ^ 32)
    (maps : (tlb.update virtAddr pageFrame currentPid).MapsFor threadId vpn) :
    threadId = currentPid ∧ vpn = virtAddr / pageSize ∨ tlb.MapsFor threadId vpn := by
  -- The entry that maps the page is the one that was replaced, or was there before.
  obtain ⟨chosen, replaced, others⟩ := tlb.update_replaces virtAddr pageFrame currentPid
  obtain ⟨way, valid, tag, thread⟩ := maps
  by_cases new : index vpn = index (virtAddr / pageSize) ∧ way = chosen
  · -- It is the new one, so thread and page are those of the update.
    obtain ⟨row, rfl⟩ := new
    rw [row, replaced] at tag thread
    exact .inl ⟨thread.symm, eq_of_tag_index bounded alsoBounded tag.symm row⟩
  · -- It is an older one, of which no more than the age has changed.
    obtain ⟨lru, same⟩ := others _ way new
    rw [same] at valid tag thread
    exact .inr ⟨way, valid, tag, thread⟩

/-- Dropping entries adds none. -/
theorem MapsFor.of_invalidEntry {owner : Int} {page : Nat}
    (maps : (tlb.invalidEntry owner page).MapsFor threadId vpn) : tlb.MapsFor threadId vpn := by
  obtain ⟨way, valid, tag, thread⟩ := maps
  refine ⟨way, ?_⟩
  dsimp only [invalidEntry] at valid tag thread
  -- In the set that is looked through, what is still valid was not dropped.
  by_cases row : index vpn = index page
  · rw [row, Function.update_self] at valid tag thread
    rw [row]
    split at valid
    · cases valid
    · rename_i kept
      rw [if_neg kept] at tag thread
      exact ⟨valid, tag, thread⟩
  · -- The other sets stay.
    rw [Function.update_of_ne row] at valid tag thread
    exact ⟨valid, tag, thread⟩

/-- With its arguments swapped, the call misses the entry unless thread and page are one number. -/
theorem mapsFor_invalidEntry_swapped (tlb : TLB) (threadId : Int) (vpn : Nat) :
    (tlb.invalidEntry vpn threadId.toNat).MapsFor threadId vpn ↔
      tlb.MapsFor threadId vpn ∧ threadId ≠ vpn := by
  -- If an entry is left, it was there before, and the two numbers differ.
  constructor
  · intro maps
    refine ⟨maps.of_invalidEntry, ?_⟩
    rintro rfl
    -- Then every entry that could map the page is dropped.
    obtain ⟨way, valid, tag, thread⟩ := maps
    simp only [invalidEntry, Int.toNat_natCast, Function.update_self] at valid tag thread
    split at valid
    · cases valid
    · rename_i kept
      rw [if_neg kept] at tag thread
      simp [valid, tag, thread] at kept
  · rintro ⟨⟨way, valid, tag, thread⟩, different⟩
    refine ⟨way, ?_⟩
    -- The entry is for another thread than the one that the call names.
    have kept : tlb.invalidEntry vpn threadId.toNat (index vpn) way = tlb (index vpn) way := by
      unfold invalidEntry
      by_cases row : index vpn = index threadId.toNat
      · rw [row, Function.update_self, if_neg]
        rw [← row]
        simp [thread, different]
      · rw [Function.update_of_ne row]
    rw [kept]
    exact ⟨valid, tag, thread⟩

end TLB

namespace VmKernel

/-- Every valid entry of the TLB is for a page that its thread has in memory. -/
def NoStale (kernel : VmKernel) : Prop :=
  ∀ (threadId : Int) (vpn : Nat), vpn < 2 ^ 32 → kernel.tlb.MapsFor threadId vpn →
    ∃ page, kernel.Resident threadId vpn page

/--
The TLB forgets the page that the replacement strategy throws out.

Either it has no entry for the page, or the page is written back and happens to have the number of
its thread: `invalidEntry` is given the one for the other.
-/
def ForgetsVictim (kernel : VmKernel) : Prop :=
  let owner := kernel.phyMemManager.phyMemPageTable kernel.phyMemManager.swapOnePage
  kernel.tlb.MapsFor owner.mainThreadId owner.virtualPage.toNat →
    owner.mainThreadId = owner.virtualPage ∧
    ∃ space ∈ kernel.getAddrSpaceOfThread owner.mainThreadId,
      (space.pageTable owner.virtualPage.toNat).dirty = true

instance (kernel : VmKernel) : Decidable kernel.ForgetsVictim :=
  inferInstanceAs (Decidable (_ → _))

/-- The TLB has no entry for a page that a thread has in memory. -/
def ForgetsThread (kernel : VmKernel) (threadId : Int) : Prop :=
  ∀ space ∈ kernel.getAddrSpaceOfThread threadId, ∀ vpn < space.numPages,
    (space.pageTable vpn).valid = true → ¬ kernel.tlb.MapsFor threadId vpn

instance (kernel : VmKernel) (threadId : Int) : Decidable (kernel.ForgetsThread threadId) :=
  inferInstanceAs (Decidable (∀ space ∈ kernel.getAddrSpaceOfThread threadId, _))

/-- If a fault on this page has to throw out another one, the TLB forgets that one. -/
def FaultForgets (kernel : VmKernel) (vpn : Nat) : Prop :=
  kernel.absent vpn = true → kernel.Full → kernel.ForgetsVictim

instance (kernel : VmKernel) (vpn : Nat) : Decidable (kernel.FaultForgets vpn) :=
  inferInstanceAs (Decidable (_ → _ → _))

/-- If the access has to throw out a page, the TLB forgets that page. -/
def AccessForgets (kernel : VmKernel) (addr : Word) (size : Nat) (writing : Bool) : Prop :=
  kernel.pagesIn addr size writing = true → kernel.Full → kernel.ForgetsVictim

instance (kernel : VmKernel) (addr : Word) (size : Nat) (writing : Bool) :
    Decidable (kernel.AccessForgets addr size writing) :=
  inferInstanceAs (Decidable (_ → _ → _))

/-- The event withdraws no mapping that the TLB keeps. -/
def Forgets (kernel : VmKernel) : Int × VmEvent → Prop
  | (_, .delete threadId) => kernel.ForgetsThread threadId
  | (_, .fault vpn) => kernel.FaultForgets vpn
  | (_, .read _ addr size) => kernel.AccessForgets addr size false
  | (_, .write _ addr size _) => kernel.AccessForgets addr size true
  | _ => True

instance (kernel : VmKernel) : ∀ timed : Int × VmEvent, Decidable (kernel.Forgets timed)
  | (_, .create _ _ _ _) => inferInstanceAs (Decidable True)
  | (_, .delete threadId) => inferInstanceAs (Decidable (kernel.ForgetsThread threadId))
  | (_, .switchTo _) => inferInstanceAs (Decidable True)
  | (_, .fault vpn) => inferInstanceAs (Decidable (kernel.FaultForgets vpn))
  | (_, .read _ addr size) => inferInstanceAs (Decidable (kernel.AccessForgets addr size false))
  | (_, .write _ addr size _) => inferInstanceAs (Decidable (kernel.AccessForgets addr size true))

/-- User programs run, and access memory, once their page table is loaded. -/
def RunsLoaded (kernel : VmKernel) : Int × VmEvent → Prop
  | (_, .read _ _ _) => kernel.pageTable = some kernel.currentThread
  | (_, .write _ _ _ _) => kernel.pageTable = some kernel.currentThread
  | _ => True

instance (kernel : VmKernel) : ∀ timed : Int × VmEvent, Decidable (kernel.RunsLoaded timed)
  | (_, .create _ _ _ _) => inferInstanceAs (Decidable True)
  | (_, .delete _) => inferInstanceAs (Decidable True)
  | (_, .switchTo _) => inferInstanceAs (Decidable True)
  | (_, .fault _) => inferInstanceAs (Decidable True)
  | (_, .read _ _ _) => inferInstanceAs (Decidable (kernel.pageTable = some kernel.currentThread))
  | (_, .write _ _ _ _) =>
    inferInstanceAs (Decidable (kernel.pageTable = some kernel.currentThread))

variable {kernel middle after : VmKernel}

/-- Fewer entries for at least the same pages in memory leave nothing stale. -/
theorem NoStale.mono (fresh : kernel.NoStale)
    (maps : ∀ threadId vpn, after.tlb.MapsFor threadId vpn → kernel.tlb.MapsFor threadId vpn)
    (stays : ∀ threadId vpn page, vpn < 2 ^ 32 → after.tlb.MapsFor threadId vpn →
      kernel.Resident threadId vpn page → after.Resident threadId vpn page) : after.NoStale := by
  intro threadId vpn bounded mapped
  obtain ⟨page, resident⟩ := fresh threadId vpn bounded (maps threadId vpn mapped)
  exact ⟨page, stays threadId vpn page bounded mapped resident⟩

/-- A translation leaves nothing stale that was not. -/
theorem NoStale.translate (fresh : kernel.NoStale) (sized : kernel.Sized)
    (pointer : kernel.pageTable = some kernel.currentThread) {virtAddr : Word} {size : Nat}
    {writing : Bool} {result : Except ExceptionType Int}
    (translated : kernel.translate virtAddr size writing = some (result, after)) :
    after.NoStale := by
  -- Looking into the TLB changes ages only.
  have aged : NoStale { kernel with tlb := (kernel.tlb.translate virtAddr.toNat).2 } :=
    fresh.mono (fun _ _ maps => maps.of_aged fun way => kernel.tlb.translate_aged _ _ way)
      fun _ _ _ _ _ resident => (resident_congr rfl _ _ _).mpr resident
  -- By cases on the outcome.
  cases result with
  | error exception =>
    obtain ⟨-, rfl⟩ | ⟨-, ⟨-, found, -⟩ | ⟨-, walked⟩⟩ := translate_ends translated
    · -- A misaligned address changes nothing.
      exact fresh
    · cases found
    · -- A failed walk adds no entry.
      obtain ⟨_, -, rfl, -⟩ | ⟨_, _, -, -, -, -, -, found, -⟩ := walk_cases walked
      · exact aged
      · cases found
  | ok physAddr =>
    rcases translate_cases translated with ⟨-, -, rfl⟩ | ⟨middle, rfl, walked⟩
    · -- The TLB has answered.
      exact aged
    rcases walk_cases walked with ⟨_, -, rfl, -⟩ |
      ⟨threadId, space, points, held, below, valid, -, -, rfl⟩
    · -- The walk has failed.
      exact aged
    -- The walk went through the current thread's own page table.
    obtain rfl : threadId = kernel.currentThread := Option.some.inj (points.symm.trans pointer)
    obtain ⟨space', live, pages⟩ := sized _ pointer
    obtain rfl : space = space' := Option.some.inj (Eq.trans (Eq.symm held) (held_of_live live))
    have inTable : virtAddr.toNat / pageSize < space.numPages := pages ▸ below
    have bounded : virtAddr.toNat / pageSize < 2 ^ 32 := by
      have small := virtAddr.isLt
      simp only [pageSize]
      omega
    -- Each entry afterwards is the new one, or was there before.
    intro threadId vpn small maps
    have new : (TLB.update (kernel.tlb.translate virtAddr.toNat).2 virtAddr.toNat
        (space.pageTable (virtAddr.toNat / pageSize)).physicalPage kernel.currentThread).MapsFor
          threadId vpn := by
      cases writing <;> exact maps
    have residents := @resident_walked { kernel with tlb := (kernel.tlb.translate virtAddr.toNat).2 }
      virtAddr _ space writing live inTable threadId vpn
    rcases new.of_update small bounded with ⟨rfl, rfl⟩ | old
    · -- The new one is for the page that was walked to, which is resident.
      exact ⟨_, (residents _).mpr ⟨space, live, inTable, valid, rfl⟩⟩
    · -- An older one maps a page that is still resident.
      obtain ⟨page, resident⟩ := aged threadId vpn small old
      exact ⟨page, (residents page).mpr resident⟩

/-- What the TLB maps for the page that is thrown out, after that. -/
theorem mapsFor_evicted (kernel : VmKernel) (threadId : Int) (vpn : Nat) (space : AddrSpace)
    (contents : List Byte) (page : Nat) :
    (kernel.evicted threadId vpn space contents page).tlb.MapsFor threadId vpn ↔
      kernel.tlb.MapsFor threadId vpn ∧
        ¬ ((space.pageTable vpn).dirty = true ∧ threadId = vpn) := by
  cases dirty : (space.pageTable vpn).dirty with
  | false => simp [evicted, dirty]
  | true => simp [evicted, dirty, TLB.mapsFor_invalidEntry_swapped]

/-- Throwing a page out adds no entry for any page. -/
theorem mapsFor_of_evicted {threadId other : Int} {vpn v : Nat} {space : AddrSpace}
    {contents : List Byte} {page : Nat}
    (maps : (kernel.evicted threadId vpn space contents page).tlb.MapsFor other v) :
    kernel.tlb.MapsFor other v := by
  unfold evicted at maps
  dsimp only at maps
  split at maps
  · exact maps.of_invalidEntry
  · exact maps

/-- What the condition says about the page that is thrown out. -/
theorem forgetsVictim_iff {page : Nat} {threadId : Int} {vpn : Nat} {space : AddrSpace}
    (chosen : page = kernel.phyMemManager.swapOnePage)
    (owner : kernel.phyMemManager.phyMemPageTable page = ⟨threadId, vpn⟩)
    (live : kernel.getAddrSpaceOfThread threadId = some space) :
    kernel.ForgetsVictim ↔ (kernel.tlb.MapsFor threadId vpn →
      threadId = vpn ∧ (space.pageTable vpn).dirty = true) := by
  unfold ForgetsVictim
  rw [← chosen, owner]
  simp [live]

/-- Getting a frame leaves nothing stale if the TLB forgets the page that is thrown out. -/
theorem FrameTaken.noStale {page : Nat} (taken : kernel.FrameTaken page middle)
    (fresh : kernel.NoStale) (forgets : kernel.Full → kernel.ForgetsVictim) : middle.NoStale := by
  cases taken with
  -- With a free frame no page is thrown out.
  | free =>
    exact fresh.mono (fun _ _ maps => maps)
      fun _ _ _ _ _ resident => (resident_congr rfl _ _ _).mpr resident
  | @swapped threadId vpn space contents full chosen _ owner live below =>
    refine fresh.mono (fun _ _ maps => mapsFor_of_evicted maps) ?_
    -- A page other than the victim stays resident.
    intro other v p small maps resident
    refine (resident_evicted live below contents page other v p).mpr ⟨?_, resident⟩
    rintro ⟨rfl, rfl⟩
    -- The page that is thrown out is one that the TLB no longer maps.
    obtain ⟨mapped, kept⟩ := (mapsFor_evicted kernel other v space contents page).mp maps
    obtain ⟨same, dirty⟩ := (forgetsVictim_iff chosen owner live).mp (forgets full) mapped
    exact kept ⟨dirty, same⟩

/-- A page that is read in makes nothing stale. -/
theorem NoStale.loaded (fresh : kernel.NoStale) {space : AddrSpace} {vpn : Nat}
    (live : kernel.getAddrSpaceOfThread kernel.currentThread = some space)
    (below : vpn < space.numPages) (now : Int) (contents : List Byte) (page : Nat) :
    (kernel.loaded now space contents vpn page).NoStale := by
  intro threadId v small maps
  by_cases here : threadId = kernel.currentThread ∧ v = vpn
  · exact ⟨page, (resident_loaded live below now contents page threadId v page).mpr (by simp [here])⟩
  · obtain ⟨frame, resident⟩ := fresh threadId v small maps
    exact ⟨frame, (resident_loaded live below now contents page threadId v frame).mpr
      (by rwa [if_neg here])⟩

/-- All pages have numbers that fit into a word. -/
def Bounded (kernel : VmKernel) : Prop :=
  ∀ threadId space, kernel.virtMemManager.virtMemTable threadId = some space →
    space.numPages < 2 ^ 32

/-- The service of a page fault leaves nothing stale exactly if the TLB forgets what is thrown out. -/
theorem NoStale.fault_iff (fresh : kernel.NoStale) (table : kernel.FrameTable)
    (bounded : kernel.Bounded) {now : Int} {vpn : Nat}
    (handled : kernel.pageFaultHandler now vpn = some after) :
    after.NoStale ↔ kernel.FaultForgets vpn := by
  -- The page lies within the space of the current thread.
  obtain ⟨space, live, below⟩ := pageFaultHandler_some handled
  unfold FaultForgets absent
  rw [live]
  dsimp only
  cases valid : (space.pageTable vpn).valid with
  | true =>
    -- The page is there already, and nothing happens.
    rw [pageFaultHandler_valid live below valid] at handled
    cases handled
    exact ⟨fun _ absent => (nomatch absent), fun _ => fresh⟩
  | false =>
    -- The page is brought in, after a frame has been taken.
    obtain ⟨page, middle, found, contents, taken, lives, pages, -, -, -, loads⟩ :=
      pageFaultHandler_loads table live below valid now
    rw [handled] at loads
    cases loads
    rw [← taken.currentThread] at lives
    constructor
    · -- Nothing is stale afterwards, and some page was thrown out.
      intro nothing _ full
      cases taken with
      -- There was a free frame, against the assumption.
      | free inRange clear =>
        have marked := full page inRange
        rw [clear] at marked
        cases marked
      | @swapped threadId v victim file _ chosen _ owner liveVictim belowVictim validVictim =>
        refine (forgetsVictim_iff chosen owner liveVictim).mpr fun maps => ?_
        by_contra missed
        -- The entry is still there, but the page is gone.
        have still := (mapsFor_evicted kernel threadId v victim file page).mpr
          ⟨maps, fun both => missed both.symm⟩
        have small := bounded threadId victim (held_of_live liveVictim)
        obtain ⟨frame, resident⟩ := nothing threadId v (by omega) still
        rw [resident_loaded lives (pages ▸ below)] at resident
        split at resident
        · -- The page that was asked for was not in memory before, and the victim was.
          rename_i here
          have thread : threadId = kernel.currentThread := here.1
          rw [thread, live] at liveVictim
          cases liveVictim
          rw [here.2, valid] at validVictim
          cases validVictim
        · -- The victim is the page that is looked for, and has been thrown out.
          exact ((resident_evicted liveVictim belowVictim file page threadId v frame).mp
            resident).1 ⟨rfl, rfl⟩
    · -- If the TLB forgets the victim, the lemmas on taking and filling a frame do the rest.
      intro forgets
      exact (taken.noStale fresh (forgets rfl)).loaded lives (pages ▸ below) now contents page

/-- The deletion of an address space leaves nothing stale exactly if the TLB has none of its pages. -/
theorem NoStale.delete_iff (fresh : kernel.NoStale) (bounded : kernel.Bounded) {now threadId : Int}
    {result : Option Int} (served : kernel.serve now (.delete threadId) = some (result, after)) :
    after.NoStale ↔ kernel.ForgetsThread threadId := by
  obtain ⟨⟨virt, phys⟩, deleted, served⟩ := Option.bind_eq_some_iff.mp served
  cases served
  rcases VirtMemManager.deleteAddrSpace_some deleted with ⟨gone, rfl, -⟩ | ⟨entry, live, rfl⟩
  · -- The thread has no address space, so nothing is withdrawn.
    refine ⟨fun _ space member => ?_, fun _ => fresh.mono (fun _ _ maps => maps) fun _ _ _ _ _ => id⟩
    rw [Option.mem_def, getAddrSpaceOfThread, gone] at member
    cases member
  have looked := fun other =>
    kernel.virtMemManager.getAddrSpaceOfThread_without threadId other
  constructor
  · -- An entry that is left would be stale, since the space is gone.
    intro nothing space member vpn below valid maps
    have small := bounded threadId space (held_of_live member)
    obtain ⟨page, found, lives, -⟩ := nothing threadId vpn (by omega) maps
    rw [getAddrSpaceOfThread, looked, if_pos rfl] at lives
    cases lives
  · -- Entries of other threads map what they mapped.
    intro forgets
    refine fresh.mono (fun _ _ maps => maps) ?_
    rintro other vpn page small maps ⟨space, lives, below, valid, frame⟩
    -- The TLB has no entry of the thread that is deleted.
    have different : other ≠ threadId := by
      rintro rfl
      exact forgets space lives vpn below valid maps
    refine ⟨space, ?_, below, valid, frame⟩
    rw [getAddrSpaceOfThread, looked, if_neg different]
    exact lives

/-- An access leaves nothing stale if the TLB forgets the page that it throws out. -/
theorem NoStale.locate (fresh : kernel.NoStale) (paged : kernel.Paged) (bounded : kernel.Bounded)
    (pointer : kernel.pageTable = some kernel.currentThread) {now : Int} {addr : Word} {size : Nat}
    {writing : Bool} {physAddr : Nat} (forgets : kernel.AccessForgets addr size writing)
    (located : kernel.locate now addr size writing = some (physAddr, after)) : after.NoStale := by
  obtain ⟨middle, result, translated, -, rfl | ⟨missed, raised, handled⟩⟩ := locate_cases located
  · -- The page is found at once.
    exact fresh.translate paged.sized pointer translated
  · -- The page fault comes between the two translations.
    obtain ⟨space, live, -⟩ := paged.sized _ pointer
    obtain ⟨rfl, -, -, -, -⟩ := paged.absent_of_fault pointer live raised
    have cleared : middle.NoStale := by
      refine (fresh.fault_iff paged.table bounded handled).mpr fun absent full => forgets ?_ full
      simpa only [pagesIn, raised] using absent
    have same := pageFaultHandler_sameThread handled
    exact cleared.translate (paged.fault handled).sized
      (same.pageTable.trans (pointer.trans (congrArg some same.currentThread.symm))) translated

/-- Numbers of pages do not change unless an address space is made. -/
theorem Bounded.sameThread (bounded : kernel.Bounded) (same : kernel.SameThread after) :
    after.Bounded := by
  intro threadId space held
  have spaces := same.shape.spaces threadId
  rw [held] at spaces
  generalize before : kernel.virtMemManager.virtMemTable threadId = found at spaces
  cases spaces with
  | some alike =>
    rw [alike.numPages]
    exact bounded threadId _ before

/-- What holds of the TLB and the page tables while the TLB forgets all that is withdrawn. -/
structure Forgetful (kernel : VmKernel) : Prop where
  paged : kernel.Paged
  bounded : kernel.Bounded
  noStale : kernel.NoStale

/-- Making an address space keeps the numbers of pages small, and makes nothing stale. -/
theorem Forgetful.create (forgetful : kernel.Forgetful) {threadId : Int} {filename : FileName}
    {stack : List Byte} {uninitialised : AddrSpace} {virt : VirtMemManager}
    (runnable : Runnable kernel.files filename stack)
    (created : kernel.virtMemManager.createAddrSpace kernel.files threadId filename stack
      uninitialised = some virt) :
    Bounded { kernel with virtMemManager := virt } ∧
      NoStale { kernel with virtMemManager := virt } := by
  obtain ⟨inTable, rfl | ⟨entry, free, built, -, rfl⟩⟩ :=
    VirtMemManager.createAddrSpace_some created
  · -- The manager refuses the space, and nothing changes.
    exact ⟨forgetful.bounded, forgetful.noStale⟩
  obtain ⟨contents, -, new⟩ := addrSpace_new_eq runnable threadId uninitialised
  rw [new] at built
  cases built
  -- The space is built, and its number of pages is small, like all others.
  constructor
  · intro other space held
    simp only [VirtMemManager.withEntry] at held
    by_cases same : other = threadId
    · rw [same, Function.update_self] at held
      cases held
      exact AddrSpace.pagesOf_lt _
    · rw [Function.update_of_ne same] at held
      exact forgetful.bounded other space held
  · -- What was resident is resident.
    refine forgetful.noStale.mono (fun _ _ maps => maps) ?_
    rintro other vpn page - - ⟨space, live, resident⟩
    refine ⟨space, ?_, resident⟩
    -- The thread had no address space before.
    have different : other ≠ threadId := by
      rintro rfl
      rw [held_of_live live] at free
      cases free
    rw [getAddrSpaceOfThread, VirtMemManager.getAddrSpaceOfThread_withEntry inTable,
      if_neg different]
    exact live

/-- Deleting an address space makes no other one longer. -/
theorem Bounded.delete (bounded : kernel.Bounded) {now threadId : Int} {result : Option Int}
    (served : kernel.serve now (.delete threadId) = some (result, after)) : after.Bounded := by
  obtain ⟨⟨virt, phys⟩, deleted, served⟩ := Option.bind_eq_some_iff.mp served
  cases served
  rcases VirtMemManager.deleteAddrSpace_some deleted with ⟨-, rfl, -⟩ | ⟨entry, -, rfl⟩
  · exact bounded
  · intro other space held
    by_cases same : other = threadId
    · simp [same] at held
    · exact bounded other space (by simpa [same] using held)

/-- An event that the TLB keeps up with leaves nothing stale. -/
theorem Forgetful.step (forgetful : kernel.Forgetful) {timed : Int × VmEvent}
    (admitted : kernel.Admitted timed ∧ kernel.RunsLoaded timed) (forgets : kernel.Forgets timed) :
    ∃ next, kernel.step timed = some next ∧ next.Forgetful := by
  -- That the kernel stays paged is known.
  obtain ⟨next, stepped, paged⟩ := forgetful.paged.step admitted.1
  suffices rest : next.Bounded ∧ next.NoStale from ⟨next, stepped, paged, rest.1, rest.2⟩
  obtain ⟨now, event⟩ := timed
  obtain ⟨⟨result, last⟩, served, rfl⟩ := Option.map_eq_some_iff.mp stepped
  obtain ⟨before, bounded, fresh⟩ := forgetful
  -- The two clauses that are left, by cases on the event.
  cases event with
  | create threadId filename stack uninitialised =>
    obtain ⟨virt, created, served⟩ := Option.bind_eq_some_iff.mp served
    cases served
    exact Forgetful.create ⟨before, bounded, fresh⟩ admitted.1.2 created
  -- The deletion leaves nothing stale by the condition.
  | delete threadId => exact ⟨bounded.delete served, (fresh.delete_iff bounded served).mpr forgets⟩
  | switchTo threadId =>
    -- A switch loads another page table, and leaves the TLB.
    cases served
    unfold runThread
    dsimp only
    split <;> exact ⟨bounded, fresh.mono (fun _ _ maps => maps) fun _ _ _ _ _ => id⟩
  -- A page fault leaves nothing stale by the condition.
  | fault vpn =>
    refine ⟨bounded.sameThread (serve_reaches rfl served).sameThread, ?_⟩
    obtain ⟨_, handled, served⟩ := Option.bind_eq_some_iff.mp served
    cases served
    exact (fresh.fault_iff before.table bounded handled).mpr forgets
  -- A read is an access.
  | read threadId addr size =>
    refine ⟨bounded.sameThread (serve_reaches rfl served).sameThread, ?_⟩
    obtain ⟨physAddr, located⟩ := serve_read served
    exact fresh.locate before bounded admitted.2 forgets located
  | write threadId addr size value =>
    refine ⟨bounded.sameThread (serve_reaches rfl served).sameThread, ?_⟩
    -- The store itself does not concern the TLB.
    obtain ⟨physAddr, found, mainMemory, located, rfl⟩ := serve_write served
    have kept : found.NoStale := fresh.locate before bounded admitted.2 forgets located
    exact kept

end VmKernel

/--
A mapping that is withdrawn leaves the TLB as long as the TLB forgets it.

If no step of a run withdraws a mapping that the TLB keeps, every valid entry is for a page that its
thread has in memory. The next page fault and the next deletion keep it so exactly if the TLB
forgets what they withdraw.
-/
theorem withdrawn_leavesTlb (files : UnixFiles) (mainMemory : MainMemory) (tlb : TLB)
    (owners : Nat → PhyMemPageEntry) (currentThread : Int) (events : List (Int × VmEvent))
    (admitted : EveryStep VmKernel.step
      (fun kernel timed => kernel.Admitted timed ∧ kernel.RunsLoaded timed)
      (.boot files mainMemory tlb owners currentThread) events)
    (forgets : EveryStep VmKernel.step VmKernel.Forgets
      (.boot files mainMemory tlb owners currentThread) events) :
    ∃ final, replay VmKernel.step (.boot files mainMemory tlb owners currentThread) events =
        some final ∧
      final.NoStale ∧
      (∀ now vpn after, final.pageFaultHandler now vpn = some after →
        (after.NoStale ↔ final.FaultForgets vpn)) ∧
      ∀ now threadId result after, final.serve now (.delete threadId) = some (result, after) →
        (after.NoStale ↔ final.ForgetsThread threadId) := by
  -- At boot nothing can be stale.
  have start : (VmKernel.boot files mainMemory tlb owners currentThread).Forgetful := by
    refine ⟨.boot files mainMemory tlb owners currentThread, fun _ _ held => (nomatch held), ?_⟩
    -- Nothing in the TLB is valid.
    rintro threadId vpn - ⟨way, valid, -⟩
    cases valid
  -- The lemma for one step carries that along the run.
  obtain ⟨final, ran, forgetful⟩ := replay_progress
    (fun _ _ forgetful both => VmKernel.Forgetful.step forgetful both.1 both.2) start
    (admitted.and forgets)
  -- The rest are the two equivalences, in the state that is reached.
  refine ⟨final, ran, forgetful.noStale, fun now vpn after handled => ?_,
    fun now threadId result after served => ?_⟩
  · exact forgetful.noStale.fault_iff forgetful.paged.table forgetful.bounded handled
  · exact forgetful.noStale.delete_iff forgetful.bounded served

/-- A process runs while another one, which has not been loaded, is deleted. -/
theorem withdrawn_leavesTlb_apart : ∃ final, replay VmKernel.step
      (.boot (fun _ => some emptyProgram) (fun _ => 0) (fun _ _ => ⟨0, 0, true, 0, 0⟩)
        (fun _ => ⟨5, 5⟩) 0)
      [(1, .create 0 [1] [] ⟨0, 0, [], AddrSpace.freshEntry⟩),
        (2, .create 1 [2] [] ⟨0, 0, [], AddrSpace.freshEntry⟩), (3, .switchTo 0),
        (4, .read 0 0 4), (5, .write 0 128 4 7), (6, .delete 1)] = some final ∧
    final.NoStale := by
  -- The run satisfies the conditions, by evaluation.
  obtain ⟨final, ran, fresh, -⟩ := withdrawn_leavesTlb (fun _ => some emptyProgram) (fun _ => 0)
    (fun _ _ => ⟨0, 0, true, 0, 0⟩) (fun _ => ⟨5, 5⟩) 0
    [(1, .create 0 [1] [] ⟨0, 0, [], AddrSpace.freshEntry⟩),
      (2, .create 1 [2] [] ⟨0, 0, [], AddrSpace.freshEntry⟩), (3, .switchTo 0),
      (4, .read 0 0 4), (5, .write 0 128 4 7), (6, .delete 1)]
    (by decide +kernel) (by decide +kernel)
  exact ⟨final, ran, fresh⟩

/-- A process uses one page over and over, and every other page once, until no frame is free. -/
def favouriteAccesses : List (Int × VmEvent) :=
  (3, .write 0 128 1 7) ::
    (List.range 127).flatMap (fun i : Nat =>
      [((4 + i : Nat), .read 0 (BitVec.ofNat 32 (128 * (i + 2))) 1), ((4 + i : Nat), .read 0 128 1)])

/--
Neither the deletion of a process nor the loss of a page is noticed by the TLB.

The page that is thrown out is dirty, so `invalidEntry` is called for it, but with thread and page
the wrong way round.
-/
theorem withdrawn_staysInTlb :
    (∃ kernel, replay VmKernel.step
        (.boot (fun _ => some emptyProgram) (fun _ => 0) (fun _ _ => ⟨0, 0, true, 0, 0⟩)
          (fun _ => ⟨5, 5⟩) 0)
        [(1, .create 0 [1] [] ⟨0, 0, [], AddrSpace.freshEntry⟩), (2, .switchTo 0),
          (3, .read 0 0 4), (4, .delete 0)] = some kernel ∧
      kernel.tlb.MapsFor 0 0 ∧ kernel.getAddrSpaceOfThread 0 = none) ∧
    ∃ kernel before after, hollowLaunch = some kernel ∧
      EveryStep VmKernel.step
        (fun kernel timed => kernel.Admitted timed ∧ kernel.RunsLoaded timed) kernel
        favouriteAccesses ∧
      replay VmKernel.step kernel favouriteAccesses = some before ∧
      before.pageFaultHandler 200 149 = some after ∧ after.tlb.MapsFor 0 1 ∧
      (after.getAddrSpaceOfThread 0).map (fun space => (space.pageTable 1).valid) = some false := by
  -- The theorem's hypotheses on the launch hold.
  refine ⟨⟨_, rfl, by decide +kernel, rfl⟩, ?_⟩
  -- The whole run is evaluated at once, with the check that every access is one of a program.
  have evaluated : (hollowLaunch.bind fun kernel =>
      if EveryStep VmKernel.step
          (fun kernel timed => kernel.Admitted timed ∧ kernel.RunsLoaded timed) kernel
          favouriteAccesses then
        (replay VmKernel.step kernel favouriteAccesses).bind fun before =>
          (before.pageFaultHandler 200 149).map fun after => (decide (after.tlb.MapsFor 0 1),
            (after.getAddrSpaceOfThread 0).map fun space => (space.pageTable 1).valid)
      else none) = some (true, some false) := by decide +kernel
  obtain ⟨kernel, launched, rest⟩ := Option.bind_eq_some_iff.mp evaluated
  split at rest
  · -- The accesses were checked, and the values are those that were evaluated.
    rename_i admitted
    obtain ⟨before, ran, rest⟩ := Option.bind_eq_some_iff.mp rest
    obtain ⟨after, handled, rest⟩ := Option.map_eq_some_iff.mp rest
    obtain ⟨maps, invalid⟩ := Prod.mk.inj rest
    exact ⟨kernel, before, after, launched, admitted, ran, handled, of_decide_eq_true maps, invalid⟩
  · cases rest

end Nachos
