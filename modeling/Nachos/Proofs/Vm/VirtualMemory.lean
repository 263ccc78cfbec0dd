import Mathlib.Data.Finset.Card
import Nachos.Proofs.Vm.Resolve
import Nachos.Proofs.Vm.TlbShortcut

/-! Virtual memory as a program sees it: page faults that find a free frame make no difference. -/

namespace Nachos

/-- A thread has an address space afterwards if it had one before. -/
theorem VirtMemManager.SameShape.looked {virt after : VirtMemManager} (same : virt.SameShape after)
    (threadId : Int) : Option.Rel AddrSpace.SameShape (virt.getAddrSpaceOfThread threadId)
      (after.getAddrSpaceOfThread threadId) := by
  unfold getAddrSpaceOfThread InTable
  rw [same.size]
  split
  · exact same.spaces threadId
  · exact .none

namespace VmKernel

variable {kernel after : VmKernel} {threadId : Int} {vpn : Nat}

/-- A byte of a page: the one in the page's frame, or else the one in the executable. -/
def virtualByte (kernel : VmKernel) (threadId : Int) (vpn i : Nat) : Option Byte := do
  let space ← kernel.getAddrSpaceOfThread threadId
  if vpn < space.numPages then
    let entry := space.pageTable vpn
    if entry.valid then some (kernel.mainMemory (entry.physicalPage.toNat * pageSize + i))
    else do
      let contents ← kernel.files space.exeFileId
      (pageBytes contents vpn)[i]?
  else none

/-- The page is a page of the current thread, and is not in memory. -/
def Missing (kernel : VmKernel) (vpn : Nat) : Prop :=
  ∃ space ∈ kernel.getAddrSpaceOfThread kernel.currentThread,
    vpn < space.numPages ∧ (space.pageTable vpn).valid = false

instance (kernel : VmKernel) : DecidablePred kernel.Missing := fun vpn =>
  inferInstanceAs (Decidable (∃ space ∈ kernel.getAddrSpaceOfThread kernel.currentThread,
    vpn < space.numPages ∧ (space.pageTable vpn).valid = false))

/-- The frames that no page is in. -/
def freeFrames (kernel : VmKernel) : Finset Nat :=
  (Finset.range numPhysPages).filter fun q => kernel.phyMemManager.phyMemoryMap.bit q = false

/--
The current thread can access the pages without losing any other page.

Those that are not in memory have a full page in the executable, and there is a free frame for each.
-/
structure Ready (kernel : VmKernel) (pages : Finset Nat) : Prop where
  -- What holds after every run: the page tables and the frame table match, no page is read-only.
  paged : kernel.Paged
  own : kernel.pageTable = some kernel.currentThread
  agrees : kernel.TlbAgrees
  whole : ∀ vpn ∈ pages, kernel.Missing vpn → ∀ i < pageSize,
    (kernel.virtualByte kernel.currentThread vpn i).isSome
  frames : (pages.filter kernel.Missing).card ≤ kernel.freeFrames.card

/-- The same address spaces with the same bytes in them, wherever the pages are. -/
structure SameView (kernel after : VmKernel) : Prop where
  files : after.files = kernel.files
  thread : kernel.SameThread after
  bytes : ∀ threadId vpn i, i < pageSize →
    after.virtualByte threadId vpn i = kernel.virtualByte threadId vpn i

theorem SameView.refl (kernel : VmKernel) : kernel.SameView kernel :=
  ⟨rfl, .refl _, fun _ _ _ _ => rfl⟩

theorem SameView.trans {middle : VmKernel} (first : kernel.SameView middle)
    (second : middle.SameView after) : kernel.SameView after :=
  ⟨second.files.trans first.files, first.thread.trans second.thread,
    fun threadId vpn i small =>
      (second.bytes threadId vpn i small).trans (first.bytes threadId vpn i small)⟩

theorem SameView.symm (same : kernel.SameView after) : after.SameView kernel :=
  ⟨same.files.symm, same.thread.symm,
    fun threadId vpn i small => (same.bytes threadId vpn i small).symm⟩

/-- A page in memory has the bytes in its frame. -/
theorem Resident.virtualByte {page : Nat} (resident : kernel.Resident threadId vpn page) (i : Nat) :
    kernel.virtualByte threadId vpn i = some (kernel.mainMemory (page * pageSize + i)) := by
  obtain ⟨space, live, below, valid, frame⟩ := resident
  simp [VmKernel.virtualByte, live, below, valid, frame]

/-- A page that is not in memory has the bytes in the executable. -/
theorem virtualByte_absent {space : AddrSpace} {contents : List Byte}
    (live : kernel.getAddrSpaceOfThread threadId = some space) (below : vpn < space.numPages)
    (invalid : (space.pageTable vpn).valid = false)
    (opened : kernel.files space.exeFileId = some contents) (i : Nat) :
    kernel.virtualByte threadId vpn i = (pageBytes contents vpn)[i]? := by
  simp [virtualByte, live, below, invalid, opened]

/-- The frames of the pages in memory and the executables are all there is to the bytes. -/
theorem virtualByte_congr {kernel after : VmKernel} (table : kernel.FrameTable)
    (files : after.files = kernel.files)
    (shape : kernel.virtMemManager.SameShape after.virtMemManager) {i : Nat}
    (kept : ∀ page : Nat, kernel.Resident threadId vpn page →
      ∃ frame : Nat, after.Resident threadId vpn frame ∧
        after.mainMemory (frame * pageSize + i) = kernel.mainMemory (page * pageSize + i))
    (absent : (∀ page, ¬ kernel.Resident threadId vpn page) →
      ∀ page, ¬ after.Resident threadId vpn page) :
    after.virtualByte threadId vpn i = kernel.virtualByte threadId vpn i := by
  -- The page is in memory, or its byte is that of the executable.
  by_cases present : ∃ page, kernel.Resident threadId vpn page
  · -- In memory the frame that holds it has the same bytes.
    obtain ⟨frame, resident⟩ := present
    obtain ⟨page, rfl, -⟩ := table.recorded _ _ _ resident
    obtain ⟨frame, there, same⟩ := kept page resident
    rw [resident.virtualByte, there.virtualByte, same]
  · -- Not in memory, neither before nor after.
    have before : ∀ page, ¬ kernel.Resident threadId vpn page :=
      fun page resident => present ⟨page, resident⟩
    have later := absent before
    have looked : Option.Rel AddrSpace.SameShape (kernel.getAddrSpaceOfThread threadId)
      (after.getAddrSpaceOfThread threadId) := shape.looked threadId
    unfold virtualByte
    cases live : kernel.getAddrSpaceOfThread threadId with
    -- The thread has no address space.
    | none =>
      rw [live] at looked
      cases live' : after.getAddrSpaceOfThread threadId with
      | none => rfl
      | some space' =>
        rw [live'] at looked
        cases looked
    -- The thread has an address space, which looks the same afterwards.
    | some space =>
      rw [live] at looked
      cases live' : after.getAddrSpaceOfThread threadId with
      | none =>
        rw [live'] at looked
        cases looked
      | some space' =>
        rw [live'] at looked
        cases looked with
        | some same =>
          simp only [Option.bind_eq_bind, Option.bind_some, same.numPages, same.exeFileId, files]
          -- Beyond the end of the space there are no bytes.
          split
          swap
          · rfl
          rename_i below
          -- Neither has the page in a frame.
          have invalid : (space.pageTable vpn).valid = false := by
            by_contra valid
            exact before _ ⟨space, live, below, by simpa using valid, rfl⟩
          have invalid' : (space'.pageTable vpn).valid = false := by
            by_contra valid
            exact later _ ⟨space', live', same.numPages ▸ below, by simpa using valid, rfl⟩
          simp only [invalid, invalid', Bool.false_eq_true, if_false]

/-- A page that is missing is in no frame. -/
theorem Missing.absent (gone : kernel.Missing vpn) (page : Int) :
    ¬ kernel.Resident kernel.currentThread vpn page := by
  obtain ⟨space, live, -, invalid⟩ := gone
  rintro ⟨space', live', -, valid, -⟩
  rw [live, Option.some.injEq] at live'
  rw [← live', invalid] at valid
  cases valid

/-- A page of the current thread that is not missing is in a frame. -/
theorem resident_of_not_missing {space : AddrSpace}
    (live : kernel.getAddrSpaceOfThread kernel.currentThread = some space)
    (below : vpn < space.numPages) (present : ¬ kernel.Missing vpn) :
    ∃ page, kernel.Resident kernel.currentThread vpn page := by
  refine ⟨_, space, live, below, ?_, rfl⟩
  by_contra invalid
  exact present ⟨space, live, below, by simpa using invalid⟩

/-- A page that is missing was missing before, if no page has been thrown out. -/
theorem Missing.before (same : kernel.SameThread after)
    (residents : ∀ v page, kernel.Resident kernel.currentThread v page →
      ∃ frame, after.Resident kernel.currentThread v frame) (gone : after.Missing vpn) :
    kernel.Missing vpn := by
  -- The page lies within the space of the current thread, which was the same before.
  obtain ⟨space', live', below, -⟩ := id gone
  rw [same.currentThread] at live'
  have looked : Option.Rel AddrSpace.SameShape (kernel.getAddrSpaceOfThread kernel.currentThread)
    (after.getAddrSpaceOfThread kernel.currentThread) := same.shape.looked kernel.currentThread
  rw [live'] at looked
  cases live : kernel.getAddrSpaceOfThread kernel.currentThread with
  -- It had a space before as well.
  | none =>
    rw [live] at looked
    cases looked
  | some space =>
    rw [live] at looked
    cases looked with
    | some alike =>
      refine ⟨space, live, alike.numPages ▸ below, ?_⟩
      -- A page that was resident before still is.
      by_contra valid
      obtain ⟨frame, resident⟩ :=
        residents vpn _ ⟨space, live, alike.numPages ▸ below, by simpa using valid, rfl⟩
      exact Missing.absent gone frame (same.currentThread.symm ▸ resident)

/-- What an entry maps that agrees with the page table is in memory. -/
theorem TlbAgrees.resident (agrees : kernel.TlbAgrees) (sized : kernel.Sized)
    (own : kernel.pageTable = some kernel.currentThread) {addr : Word} {page : Int}
    (maps : kernel.tlb.Maps (addr.toNat / pageSize) page) :
    kernel.Resident kernel.currentThread (addr.toNat / pageSize) page := by
  obtain ⟨way, valid, tag, ppn⟩ := maps
  obtain ⟨threadId, space, pointer, held, below, present, frame⟩ := agrees addr way valid tag
  rw [own, Option.some.injEq] at pointer
  subst pointer
  obtain ⟨space', live, size⟩ := sized _ own
  obtain rfl : space = space' := Option.some.inj (held.symm.trans (held_of_live live))
  exact ⟨space, live, size ▸ below, present, frame.trans ppn⟩

/-- A TLB whose entries are all right stays so when it gets none but the right one. -/
theorem TlbAgrees.step (agrees : kernel.TlbAgrees) (sized : kernel.Sized)
    (own : kernel.pageTable = some kernel.currentThread) (same : kernel.SameThread after)
    (addr : Word) (frame : Int)
    (residents : ∀ v page, kernel.Resident kernel.currentThread v page →
      after.Resident kernel.currentThread v page)
    (entries : ∀ set way, (after.tlb set way).valid = true →
      ((kernel.tlb set way).valid = true ∧ (after.tlb set way).tag = (kernel.tlb set way).tag ∧
        (after.tlb set way).ppn = (kernel.tlb set way).ppn) ∨
      (set = TLB.index (addr.toNat / pageSize) ∧
        (after.tlb set way).tag = TLB.tagOf (addr.toNat / pageSize) ∧
        (after.tlb set way).ppn = frame ∧
        after.Resident kernel.currentThread (addr.toNat / pageSize) frame)) : after.TlbAgrees := by
  intro other way valid tag
  have own' : after.pageTable = some kernel.currentThread := same.pageTable.trans own
  have resident : after.Resident kernel.currentThread (other.toNat / pageSize)
      (after.tlb (TLB.index (other.toNat / pageSize)) way).ppn := by
    -- The entry was there before, or is the new one.
    rcases entries _ way valid with ⟨before, tagged, framed⟩ | ⟨set, tagged, framed, resident⟩
    · -- An old entry maps what the page table maps.
      have maps := agrees.resident sized own ⟨way, before, tagged.symm.trans tag, framed.symm⟩
      exact residents _ _ maps
    · -- The new entry is for this page, and no other page matches it.
      have bounded : ∀ word : Word, word.toNat / pageSize < 2 ^ 32 := fun word =>
        Nat.lt_of_le_of_lt (Nat.div_le_self _ _) word.isLt
      have samePage := TLB.eq_of_tag_index (bounded other) (bounded addr)
        (tag.symm.trans tagged) set
      rw [framed, samePage]
      exact resident
  -- What is resident lies within the page table.
  obtain ⟨space, live, below, present, framed⟩ := resident
  obtain ⟨space', live', size⟩ := sized.sameThread same _ own'
  obtain rfl : space = space' := Option.some.inj (live.symm.trans live')
  exact ⟨_, space, own', held_of_live live, size ▸ below, present, framed⟩

/-- A store changes the bytes it is for, and no others of any page. -/
theorem FrameTable.virtualByte_store (table : kernel.FrameTable) {page offset : Nat}
    {bytes : List Byte} (resident : kernel.Resident threadId vpn page)
    (fits : offset + bytes.length ≤ pageSize) (other : Int) (v : Nat) {i : Nat}
    (small : i < pageSize) :
    VmKernel.virtualByte { kernel with
        mainMemory := kernel.mainMemory.store (page * pageSize + offset) bytes } other v i =
      if (other = threadId ∧ v = vpn) ∧ offset ≤ i ∧ i < offset + bytes.length then
        some (bytes.getD (i - offset) 0)
      else kernel.virtualByte other v i := by
  -- The page that is stored to, or another one.
  by_cases here : other = threadId ∧ v = vpn
  · -- Of its own page the store changes the bytes that it is for.
    obtain ⟨rfl, rfl⟩ := here
    have stays : Resident { kernel with
        mainMemory := kernel.mainMemory.store (page * pageSize + offset) bytes } other v page :=
      (resident_congr rfl _ _ _).mpr resident
    rw [stays.virtualByte, resident.virtualByte]
    dsimp only
    -- A byte that is stored, or one beside it.
    by_cases inside : offset ≤ i ∧ i < offset + bytes.length
    · have place : page * pageSize + i = page * pageSize + offset + (i - offset) := by omega
      rw [if_pos ⟨⟨rfl, rfl⟩, inside⟩, place, MainMemory.store_inside _ (by omega)]
    · rw [if_neg fun both => inside both.2, MainMemory.store_outside _ (by omega)]
  · -- Another page is in another frame.
    rw [if_neg fun both => here both.1]
    have files : VmKernel.files { kernel with
        mainMemory := kernel.mainMemory.store (page * pageSize + offset) bytes } = kernel.files :=
      rfl
    refine virtualByte_congr table files (.refl _) (fun frame there => ?_)
      fun absent frame there => absent frame ((resident_congr rfl _ _ _).mp there)
    refine ⟨frame, (resident_congr rfl _ _ _).mpr there, ?_⟩
    have different : frame ≠ page := by
      rintro rfl
      exact here (table.occupant there resident)
    apply MainMemory.store_outside
    simp only [pageSize] at small fits ⊢
    omega

section Access

variable {page frame offset : Nat} (view : kernel.SameView after)
  (resident : kernel.Resident kernel.currentThread vpn page)
  (resident' : after.Resident after.currentThread vpn frame)
include view resident resident'

/-- The bytes that are read are the same, wherever the page is. -/
theorem SameView.slice {size : Nat} (fits : offset + size ≤ pageSize) :
    after.mainMemory.slice (frame * pageSize + offset) size =
      kernel.mainMemory.slice (page * pageSize + offset) size := by
  apply MainMemory.slice_congr
  intro j inside
  have same := view.bytes kernel.currentThread vpn (offset + j) (by omega)
  rw [← view.thread.currentThread, resident'.virtualByte, view.thread.currentThread,
    resident.virtualByte, Option.some.injEq] at same
  rwa [Nat.add_assoc, Nat.add_assoc]

/-- After the same store the bytes are the same, wherever the page is. -/
theorem SameView.store (table : kernel.FrameTable) (table' : after.FrameTable) {bytes : List Byte}
    (fits : offset + bytes.length ≤ pageSize) :
    SameView
      { kernel with mainMemory := kernel.mainMemory.store (page * pageSize + offset) bytes }
      { after with mainMemory := after.mainMemory.store (frame * pageSize + offset) bytes } := by
  refine ⟨view.files, ⟨view.thread.currentThread, view.thread.pageTable, view.thread.pageTableSize,
    view.thread.shape⟩, fun other v i small => ?_⟩
  rw [table.virtualByte_store resident fits other v small,
    table'.virtualByte_store resident' fits other v small, view.thread.currentThread,
    view.bytes other v i small]

end Access

namespace Ready

variable {pages : Finset Nat}

/-- Whatever brings pages in without losing any keeps the current thread ready. -/
theorem kept (ready : kernel.Ready pages) (paged : after.Paged) (view : kernel.SameView after)
    (agrees : after.TlbAgrees) (missing : ∀ v, after.Missing v → kernel.Missing v)
    (frames : (pages.filter after.Missing).card ≤ after.freeFrames.card) : after.Ready pages := by
  have current := view.thread.currentThread
  refine ⟨paged, ?_, agrees, fun v member gone i small => ?_, frames⟩
  · rw [view.thread.pageTable, current]
    exact ready.own
  · rw [current, view.bytes _ v i small]
    exact ready.whole v member (missing v gone) i small

/-- A translation that finds its page keeps the current thread ready. -/
theorem found (ready : kernel.Ready pages) (paged : after.Paged) (same : kernel.SameThread after)
    (files : after.files = kernel.files) (mainMemory : after.mainMemory = kernel.mainMemory)
    (phys : after.phyMemManager = kernel.phyMemManager)
    (residents : ∀ other v page, after.Resident other v page ↔ kernel.Resident other v page)
    (agrees : after.TlbAgrees) : after.Ready pages ∧ kernel.SameView after := by
  -- The thread sees the same, since no page moves and no byte changes.
  have view : kernel.SameView after := by
    refine ⟨files, same, fun other v i _ => virtualByte_congr ready.paged.table files same.shape
      (fun page resident => ⟨page, (residents _ _ _).mpr resident, by rw [mainMemory]⟩)
      fun absent page resident => absent page ((residents _ _ _).mp resident)⟩
  -- No page has gone missing, so that the free frames are still enough.
  have missing : ∀ v, after.Missing v → kernel.Missing v := fun v gone =>
    gone.before same fun v page resident => ⟨page, (residents _ _ _).mpr resident⟩
  -- The frames that were free still are.
  refine ⟨ready.kept paged view agrees missing ?_, view⟩
  have free : after.freeFrames = kernel.freeFrames := by rw [freeFrames, freeFrames, phys]
  rw [free]
  have fewer := Finset.card_le_card (Finset.monotone_filter_right pages fun v _ => missing v)
  exact fewer.trans ready.frames

/-- A page that is in memory is found there, and stays there. -/
theorem translate (ready : kernel.Ready pages) {addr : Word} {size page : Nat} (writing : Bool)
    (sized : size = 1 ∨ size = 2 ∨ size = 4) (straight : misaligned addr size = false)
    (resident : kernel.Resident kernel.currentThread (addr.toNat / pageSize) (page : Nat)) :
    ∃ next, kernel.translate addr size writing = some
        (.ok ((page * pageSize + addr.toNat % pageSize : Nat) : Int), next) ∧
      next.Ready pages ∧ kernel.SameView next ∧
      next.Resident next.currentThread (addr.toNat / pageSize) (page : Nat) := by
  -- The translation comes from the TLB, or from the page table.
  cases hit : kernel.tlb.hit (addr.toNat / pageSize) with
  | some way =>
    -- The TLB has the page, and has it where the page table has it.
    obtain ⟨valid, tag⟩ := TLB.hit_some hit
    have mapped := ready.agrees.resident ready.paged.sized ready.own ⟨way, valid, tag, rfl⟩
    have ppn := mapped.unique resident
    have translated : kernel.translate addr size writing = some
        (.ok ((page * pageSize + addr.toNat % pageSize : Nat) : Int),
          { kernel with tlb := (kernel.tlb.translate addr.toNat).2 }) := by
      unfold VmKernel.translate
      rw [TLB.translate_hit hit, ppn]
      simp only [straight, Bool.false_eq_true, if_false]
      rw [if_pos (by simp only [pageSize]; omega)]
      push_cast
      rfl
    have same : kernel.SameThread { kernel with tlb := (kernel.tlb.translate addr.toNat).2 } :=
      ⟨rfl, rfl, rfl, .refl _⟩
    -- Only ages have changed in the TLB.
    obtain ⟨still, view⟩ := ready.found (ready.paged.translate translated) same rfl rfl rfl
      (fun _ _ _ => resident_congr rfl _ _ _)
      (ready.agrees.step ready.paged.sized ready.own same addr page (fun _ _ there => there)
        fun set way valid => .inl (TLB.translate_within addr.toNat set way valid))
    exact ⟨_, translated, still, view, resident⟩
  | none =>
    -- The page table has it, and the TLB gets it from there.
    have ⟨space, live, below, valid, frame⟩ := resident
    obtain ⟨q, same, inRange, -, -⟩ := ready.paged.table.recorded _ _ _ resident
    obtain rfl : page = q := by exact_mod_cast same
    obtain ⟨space', live', size'⟩ := ready.paged.sized _ ready.own
    obtain rfl : space = space' := Option.some.inj (live.symm.trans live')
    have held := held_of_live live
    have aligned := aligned_of_not_misaligned sized straight
    have translated : kernel.translate addr size writing = some
        (.ok ((page * pageSize + addr.toNat % pageSize : Nat) : Int),
          kernel.walked addr writing kernel.currentThread space) := by
      unfold VmKernel.translate
      rw [TLB.translate_miss hit]
      simp only [straight, Bool.false_eq_true, if_false]
      rw [if_neg (by decide)]
      exact walk_resident (size' ▸ below) ready.own held valid (ready.paged.writable _ _ held _)
        frame inRange (fits_of_aligned sized aligned)
    -- Walking there moves no page.
    have residents := resident_walked writing live below
    have tlb : (kernel.walked addr writing kernel.currentThread space).tlb =
        kernel.tlb.update addr.toNat page kernel.currentThread := by
      unfold walked
      cases writing <;> simp only [frame] <;> rfl
    obtain ⟨still, view⟩ := ready.found (ready.paged.translate translated)
      (translate_sameThread translated) (by unfold walked; cases writing <;> rfl)
      (by unfold walked; cases writing <;> rfl) (by unfold walked; cases writing <;> rfl) residents
      (ready.agrees.step ready.paged.sized ready.own (translate_sameThread translated)
        -- The entries of the TLB are the new one, and some that were there before.
        addr page (fun v other there => (residents _ v other).mpr there) fun set way valid => by
          rw [tlb] at valid ⊢
          rcases TLB.update_entries _ _ _ set way valid with ⟨index, tag, ppn⟩ | before
          · exact .inr ⟨index, tag, ppn, (residents _ _ _).mpr resident⟩
          · exact .inl before)
    refine ⟨_, translated, still, view, ?_⟩
    rw [view.thread.currentThread]
    exact (residents _ _ _).mpr resident

/-- An access that is misaligned, or beyond the page table, is refused. -/
theorem refused (ready : kernel.Ready pages) {addr : Word} {size : Nat} (writing : Bool)
    (bad : misaligned addr size = true ∨ kernel.pageTableSize ≤ addr.toNat / pageSize) :
    kernel.translate addr size writing = some (.error .addressErrorException, kernel) := by
  -- Misaligned, the access is refused before the TLB is looked at.
  unfold VmKernel.translate
  split
  · rfl
  rename_i straight
  have beyond := bad.resolve_left straight
  -- The TLB has no entry for a page that the page table does not have.
  have missed : kernel.tlb.hit (addr.toNat / pageSize) = none := by
    cases hit : kernel.tlb.hit (addr.toNat / pageSize) with
    | none => rfl
    | some way =>
      obtain ⟨valid, tag⟩ := TLB.hit_some hit
      obtain ⟨threadId, space, -, -, below, -⟩ := ready.agrees addr way valid tag
      omega
  rw [TLB.translate_miss missed]
  dsimp only
  rw [if_neg (by decide)]
  unfold walk
  exact if_pos beyond

/-- A page that is missing raises a page fault, and nothing changes. -/
theorem faults (ready : kernel.Ready pages) {addr : Word} {size : Nat} (writing : Bool)
    (straight : misaligned addr size = false) (gone : kernel.Missing (addr.toNat / pageSize)) :
    kernel.translate addr size writing = some (.error .pageFaultException, kernel) := by
  -- The TLB holds no page that is not resident.
  have missed : kernel.tlb.hit (addr.toNat / pageSize) = none := by
    cases hit : kernel.tlb.hit (addr.toNat / pageSize) with
    | none => rfl
    | some way =>
      obtain ⟨valid, tag⟩ := TLB.hit_some hit
      exact absurd (ready.agrees.resident ready.paged.sized ready.own ⟨way, valid, tag, rfl⟩)
        (gone.absent _)
  -- The walk finds the page, with its valid bit clear.
  obtain ⟨space, live, below, invalid⟩ := gone
  obtain ⟨space', live', size'⟩ := ready.paged.sized _ ready.own
  obtain rfl : space = space' := Option.some.inj (live.symm.trans live')
  unfold VmKernel.translate
  rw [TLB.translate_miss missed]
  simp only [straight, Bool.false_eq_true, if_false]
  rw [if_neg (by decide)]
  exact walk_absent (size' ▸ below) ready.own (held_of_live live) invalid

/-- A page that is brought into a free frame is there, and no other page is lost. -/
theorem fault (ready : kernel.Ready pages) {vpn : Nat} (member : vpn ∈ pages)
    (gone : kernel.Missing vpn) (now : Int) :
    ∃ served page, kernel.pageFaultHandler now vpn = some served ∧ served.Ready pages ∧
      kernel.SameView served ∧ served.Resident served.currentThread vpn (page : Nat) := by
  -- The page is in no frame, and is one of those that are wanted.
  have nowhere := gone.absent
  have wanted : vpn ∈ pages.filter kernel.Missing := Finset.mem_filter.mpr ⟨member, gone⟩
  obtain ⟨space, live, below, invalid⟩ := id gone
  have table := ready.paged.table
  obtain ⟨page, middle, space', contents, taken, live', pages', file', entry', opened, handled⟩ :=
    pageFaultHandler_loads table live below invalid now
  have paged := ready.paged.fault handled
  have same := pageFaultHandler_sameThread handled
  -- There is a free frame for every page that is missing, so nothing is thrown out.
  obtain ⟨q, free⟩ := Finset.card_pos.mp
    (Nat.lt_of_lt_of_le (Finset.card_pos.mpr ⟨vpn, wanted⟩) ready.frames)
  obtain ⟨inRange, clear⟩ := Finset.mem_filter.mp free
  -- By how the frame is taken.
  cases taken with
  -- It cannot be that none was free.
  | swapped full =>
    rw [full q (Finset.mem_range.mp inRange)] at clear
    cases clear
  -- The free frame is claimed, and the page is read into it.
  | free belowPage clearPage first =>
    obtain rfl : space = space' := Option.some.inj (live.symm.trans live')
    have residents : ∀ other v frame,
        ((kernel.claimed page).loaded now space contents vpn page).Resident other v frame ↔
          if other = kernel.currentThread ∧ v = vpn then frame = page
          else kernel.Resident other v frame :=
      fun other v frame => resident_loaded live' below now contents page other v frame
    have files : ((kernel.claimed page).loaded now space contents vpn page).files = kernel.files :=
      rfl
    have stays : ∀ other v frame, kernel.Resident other v frame →
        ((kernel.claimed page).loaded now space contents vpn page).Resident other v frame := by
      intro other v frame resident
      rw [residents, if_neg]
      · exact resident
      · rintro ⟨rfl, rfl⟩
        exact nowhere frame resident
    have there : ((kernel.claimed page).loaded now space contents vpn page).Resident
        kernel.currentThread vpn page := (residents _ _ _).mpr (by simp)
    -- The thread sees the same as before: what is in the frame now was in the executable.
    have view : kernel.SameView ((kernel.claimed page).loaded now space contents vpn page) := by
      refine ⟨files, same, fun other v i small => ?_⟩
      by_cases here : other = kernel.currentThread ∧ v = vpn
      · -- The page itself is in the executable as a whole, and so in the frame.
        obtain ⟨rfl, rfl⟩ := here
        have whole := ready.whole v member gone i small
        rw [virtualByte_absent live below invalid opened] at whole ⊢
        rw [there.virtualByte]
        obtain ⟨byte, found⟩ := Option.isSome_iff_exists.mp whole
        obtain ⟨inside, rfl⟩ := List.getElem?_eq_some_iff.mp found
        rw [found, ← List.getD_eq_getElem _ 0 inside]
        exact congrArg some (MainMemory.store_inside _ inside)
      · -- No other page is in the frame.
        refine virtualByte_congr table files same.shape (fun frame resident => ?_)
          fun absent frame there => ?_
        · -- A page that is resident lies in another frame.
          refine ⟨frame, stays _ _ _ resident, ?_⟩
          obtain ⟨q, equal, -, taken, -⟩ := table.recorded _ _ _ resident
          obtain rfl : frame = q := by exact_mod_cast equal
          have different : frame ≠ page := by
            rintro rfl
            rw [clearPage] at taken
            cases taken
          have short : (pageBytes contents vpn).length ≤ pageSize := by
            simp only [pageBytes, List.length_take]
            omega
          apply MainMemory.store_outside
          simp only [pageSize] at small short ⊢
          omega
        · -- A page that is absent is still absent.
          rw [residents, if_neg here] at there
          exact absent frame there
    -- The clauses of being ready, one by one.
    refine ⟨_, page, handled, ready.kept paged view ?_ (fun v later => ?_) ?_, view, ?_⟩
    · -- The TLB has no new entry.
      exact ready.agrees.step ready.paged.sized ready.own same 0 0 (fun v frame => stays _ v frame)
        fun set way valid => .inl ⟨valid, rfl, rfl⟩
    · -- What is missing was missing before.
      exact later.before same fun v frame resident => ⟨frame, stays _ _ _ resident⟩
    · -- One page less is missing, and one frame less is free.
      have fewer : pages.filter ((kernel.claimed page).loaded now space contents vpn page).Missing ⊆
          (pages.filter kernel.Missing).erase vpn := by
        intro v later
        obtain ⟨inside, later⟩ := Finset.mem_filter.mp later
        refine Finset.mem_erase.mpr ⟨?_, Finset.mem_filter.mpr ⟨inside, later.before same
          fun v frame resident => ⟨frame, stays _ _ _ resident⟩⟩⟩
        rintro rfl
        exact later.absent page there
      have free : kernel.freeFrames.erase page ⊆
          ((kernel.claimed page).loaded now space contents vpn page).freeFrames := by
        intro q member
        obtain ⟨different, member⟩ := Finset.mem_erase.mp member
        obtain ⟨inRange, clear⟩ := Finset.mem_filter.mp member
        refine Finset.mem_filter.mpr ⟨inRange, ?_⟩
        change (kernel.phyMemManager.phyMemoryMap.setBit page).bit q = false
        rw [Bitmap.bit_setBit _ (table.bits ▸ belowPage), clear]
        simpa using different
      have wasFree : page ∈ kernel.freeFrames :=
        Finset.mem_filter.mpr ⟨Finset.mem_range.mpr belowPage, clearPage⟩
      calc (pages.filter ((kernel.claimed page).loaded now space contents vpn page).Missing).card
          ≤ ((pages.filter kernel.Missing).erase vpn).card := Finset.card_le_card fewer
        _ = (pages.filter kernel.Missing).card - 1 := Finset.card_erase_of_mem wanted
        _ ≤ kernel.freeFrames.card - 1 := Nat.sub_le_sub_right ready.frames 1
        _ = (kernel.freeFrames.erase page).card := (Finset.card_erase_of_mem wasFree).symm
        _ ≤ ((kernel.claimed page).loaded now space contents vpn page).freeFrames.card :=
          Finset.card_le_card free
    · exact there

end Ready

end VmKernel

end Nachos
