import Nachos.Proofs.Lib.Bitmap
import Nachos.Theory.Least
import Nachos.Vm.MemoryManager

/-! What a page fault does: which frame it takes, and what it changes about the page in it. -/

namespace Nachos

namespace PhyMemManager

variable {phys : PhyMemManager}

/-- The search keeps the first of the frames with the least recorded time. -/
theorem oldestFrom_eq (lastUsed : Nat → Int) (indices : List Nat) :
    ∀ target, oldestFrom lastUsed target indices = leastFrom lastUsed target indices := by
  induction indices with
  | nil => exact fun target => rfl
  | cons i rest ih =>
    intro target
    rw [oldestFrom, leastFrom, ih, ih]

/-- The replacement strategy names a frame that exists. -/
theorem swapOnePage_lt (positive : 0 < phys.phyPageNums) :
    phys.swapOnePage < phys.phyPageNums := by
  have member := leastFrom_mem phys.lastUsedTimeTable 0 (List.range phys.phyPageNums)
  rw [← oldestFrom_eq] at member
  change phys.swapOnePage ∈ _ at member
  rcases List.mem_cons.mp member with same | member
  · rw [same]
    exact positive
  · exact List.mem_range.mp member

section Taken

variable {page : Nat}

/-- The owner of a frame that is taken is the recorded one. -/
theorem getMainThread_taken (inRange : page < phys.phyMemoryMap.numBits)
    (taken : phys.phyMemoryMap.bit page = true) :
    phys.getMainThread page = some (phys.phyMemPageTable page).mainThreadId := by
  simp [getMainThread, Bitmap.test_inRange _ inRange, taken]

/-- The page in a frame that is taken is the recorded one. -/
theorem getVirtualPage_taken (inRange : page < phys.phyMemoryMap.numBits)
    (taken : phys.phyMemoryMap.bit page = true) :
    phys.getVirtualPage page = some (phys.phyMemPageTable page).virtualPage := by
  simp [getVirtualPage, Bitmap.test_inRange _ inRange, taken]

/-- A change to a frame that is taken is made. -/
theorem whenTaken_taken (inRange : page < phys.phyMemoryMap.numBits)
    (taken : phys.phyMemoryMap.bit page = true) (changed : PhyMemManager) :
    phys.whenTaken page changed = some changed := by
  simp [whenTaken, Bitmap.test_inRange _ inRange, taken]

end Taken

/-- Record that a frame is used now by a page of a thread. -/
def assign (phys : PhyMemManager) (page : Nat) (threadId : Int) (vpn : Nat) (now : Int) :
    PhyMemManager :=
  { phys with
    phyMemPageTable := Function.update phys.phyMemPageTable page ⟨threadId, vpn⟩
    lastUsedTimeTable := Function.update phys.lastUsedTimeTable page now }

/-- The three calls that record the new owner of a frame amount to one assignment. -/
theorem assign_eq {page : Nat} (inRange : page < phys.phyMemoryMap.numBits)
    (taken : phys.phyMemoryMap.bit page = true) (threadId : Int) (vpn : Nat) (now : Int) :
    (do
      let phys ← phys.setVirtualPage page vpn
      let phys ← phys.setMainThreadId page threadId
      phys.updatePageWeight page now) = some (phys.assign page threadId vpn now) := by
  -- None of the three changes the bit that the next one tests.
  have made : ∀ other : PhyMemManager, other.phyMemoryMap = phys.phyMemoryMap →
      ∀ changed, other.whenTaken page changed = some changed := fun other same changed =>
    whenTaken_taken (same ▸ inRange) (same ▸ taken) changed
  -- So the three calls follow one another, and make one record.
  refine Option.bind_eq_some_iff.mpr ⟨_, made phys rfl _, ?_⟩
  refine Option.bind_eq_some_iff.mpr ⟨_, made _ (by rfl) _, ?_⟩
  refine (made _ (by rfl) _).trans ?_
  simp [assign]

end PhyMemManager

namespace VirtMemManager

/-- An entry is replaced in the address space of its thread alone. -/
theorem getAddrSpaceOfThread_setEntry (virt : VirtMemManager) (threadId : Int) (vpn : Nat)
    (entry : TranslationEntry) (other : Int) :
    (virt.setEntry threadId vpn entry).getAddrSpaceOfThread other =
      if other = threadId then (virt.getAddrSpaceOfThread threadId).map (·.setEntry vpn entry)
      else virt.getAddrSpaceOfThread other := by
  by_cases same : other = threadId
  · subst same
    simp only [getAddrSpaceOfThread, setEntry, Function.update_self, if_true]
    split <;> rfl
  · simp [getAddrSpaceOfThread, setEntry, same]

end VirtMemManager

namespace MainMemory

@[simp] theorem length_slice (memory : MainMemory) (start size : Nat) :
    (memory.slice start size).length = size := by
  simp [slice]

/-- A slice has the bytes of the memory, in order. -/
theorem getD_slice (memory : MainMemory) (start : Nat) {size i : Nat} (inside : i < size) :
    (memory.slice start size).getD i 0 = memory (start + i) := by
  simp [slice, List.getD_eq_getElem?_getD, inside]

/-- Two memories with the same bytes there have the same slice. -/
theorem slice_congr {memory other : MainMemory} {start target size : Nat}
    (same : ∀ i < size, memory (start + i) = other (target + i)) :
    memory.slice start size = other.slice target size := by
  apply List.map_congr_left
  intro i member
  exact same i (List.mem_range.mp member)

/-- Storing bytes changes nothing outside them. -/
theorem store_outside (memory : MainMemory) {start : Nat} {bytes : List Byte} {a : Nat}
    (outside : a < start ∨ start + bytes.length ≤ a) : memory.store start bytes a = memory a := by
  unfold store
  rw [if_neg (by omega)]

/-- Stored bytes are there afterwards. -/
theorem store_inside (memory : MainMemory) {start : Nat} {bytes : List Byte} {i : Nat}
    (inside : i < bytes.length) : memory.store start bytes (start + i) = bytes.getD i 0 := by
  unfold store
  rw [if_pos (by omega), Nat.add_sub_cancel_left]

end MainMemory

namespace VmKernel

variable {kernel : VmKernel}

/-- A live thread has the page in the frame. -/
def Resident (kernel : VmKernel) (threadId : Int) (vpn : Nat) (page : Int) : Prop :=
  ∃ space, kernel.getAddrSpaceOfThread threadId = some space ∧ vpn < space.numPages ∧
    (space.pageTable vpn).valid = true ∧ (space.pageTable vpn).physicalPage = page

instance (kernel : VmKernel) (threadId : Int) (vpn : Nat) (page : Int) :
    Decidable (kernel.Resident threadId vpn page) :=
  inferInstanceAs (Decidable (∃ space ∈ kernel.getAddrSpaceOfThread threadId, _))

/--
The frame table is the inverse of the page tables.

The executables are part of it, since a page can be taken away or brought in only if its file is
there.
-/
structure FrameTable (kernel : VmKernel) : Prop where
  frames : kernel.phyMemManager.phyPageNums = numPhysPages
  bits : kernel.phyMemManager.phyMemoryMap.numBits = numPhysPages
  recorded : ∀ threadId vpn page, kernel.Resident threadId vpn page →
    ∃ q : Nat, page = q ∧ q < numPhysPages ∧ kernel.phyMemManager.phyMemoryMap.bit q = true ∧
      kernel.phyMemManager.phyMemPageTable q = ⟨threadId, vpn⟩
  owned : ∀ q < numPhysPages, kernel.phyMemManager.phyMemoryMap.bit q = true →
    ∃ (threadId : Int) (vpn : Nat), kernel.Resident threadId vpn q
  executable : ∀ threadId space, kernel.getAddrSpaceOfThread threadId = some space →
    ∃ contents, kernel.files space.exeFileId = some contents

/-- A page is in one frame at most. -/
theorem Resident.unique {threadId : Int} {vpn : Nat} {page other : Int}
    (first : kernel.Resident threadId vpn page) (second : kernel.Resident threadId vpn other) :
    page = other := by
  obtain ⟨space, live, -, -, rfl⟩ := first
  obtain ⟨space', live', -, -, rfl⟩ := second
  rw [live] at live'
  cases live'
  rfl

/-- A frame has one page at most. -/
theorem FrameTable.occupant {page : Nat} {threadId other : Int} {vpn v : Nat}
    (table : kernel.FrameTable) (first : kernel.Resident threadId vpn page)
    (second : kernel.Resident other v page) : threadId = other ∧ vpn = v := by
  obtain ⟨q, same, -, -, owner⟩ := table.recorded threadId vpn page first
  obtain ⟨q', same', -, -, owner'⟩ := table.recorded other v page second
  obtain rfl : page = q := by exact_mod_cast same
  obtain rfl : page = q' := by exact_mod_cast same'
  rw [owner] at owner'
  exact ⟨congrArg PhyMemPageEntry.mainThreadId owner',
    Int.natCast_inj.mp (congrArg PhyMemPageEntry.virtualPage owner')⟩

/-- The address space that a thread has is the one in the table. -/
theorem held_of_live {threadId : Int} {space : AddrSpace}
    (live : kernel.getAddrSpaceOfThread threadId = some space) :
    kernel.virtMemManager.virtMemTable threadId = some space := by
  unfold getAddrSpaceOfThread VirtMemManager.getAddrSpaceOfThread at live
  split at live
  · exact live
  · cases live

/-- No frame is free. -/
def Full (kernel : VmKernel) : Prop :=
  ∀ q < numPhysPages, kernel.phyMemManager.phyMemoryMap.bit q = true

instance (kernel : VmKernel) : Decidable kernel.Full := inferInstanceAs (Decidable (∀ q < _, _))

/-- The state after a page has lost its frame, its file being there. -/
def evicted (kernel : VmKernel) (threadId : Int) (vpn : Nat) (space : AddrSpace)
    (contents : List Byte) (page : Nat) : VmKernel :=
  let entry := space.pageTable vpn
  { kernel with
    files := if entry.dirty then Function.update kernel.files space.exeFileId
      (some (writeAt contents (kernel.mainMemory.frame page) (AddrSpace.fileOffset vpn)))
      else kernel.files
    tlb := if entry.dirty then kernel.tlb.invalidEntry vpn threadId.toNat else kernel.tlb
    virtMemManager := kernel.virtMemManager.setEntry threadId vpn { entry with valid := false } }

/-- The state after a free frame has been taken. -/
def claimed (kernel : VmKernel) (page : Nat) : VmKernel :=
  { kernel with
    phyMemManager := { kernel.phyMemManager with
      phyMemoryMap := kernel.phyMemManager.phyMemoryMap.setBit page } }

/-- The bytes that a page fault reads from the file of a page. -/
def pageBytes (contents : List Byte) (vpn : Nat) : List Byte :=
  (contents.drop (AddrSpace.fileOffset vpn)).take pageSize

/-- Each byte of a frame that a page is read into: the file's, or its own where the file has ended. -/
theorem store_pageBytes (memory : MainMemory) (contents : List Byte) (vpn page : Nat) {j : Nat}
    (inside : j < pageSize) :
    memory.store (page * pageSize) (pageBytes contents vpn) (page * pageSize + j) =
      contents.getD (AddrSpace.fileOffset vpn + j) (memory (page * pageSize + j)) := by
  -- The byte was read, or the file has ended before it.
  rcases Nat.lt_or_ge j (pageBytes contents vpn).length with stored | ended
  · have bounded : AddrSpace.fileOffset vpn + j < contents.length := by
      simp only [pageBytes, List.length_take, List.length_drop] at stored
      omega
    rw [MainMemory.store_inside _ stored, List.getD_eq_getElem _ _ bounded,
      List.getD_eq_getElem _ _ stored]
    simp [pageBytes]
  · -- Nothing was read here, so the frame keeps its byte.
    have past : contents.length ≤ AddrSpace.fileOffset vpn + j := by
      simp only [pageBytes, List.length_take, List.length_drop] at ended
      omega
    rw [MainMemory.store_outside _ (Or.inr (by omega)), List.getD_eq_default _ _ past]

/-- The state after a page of the current thread has been read into its new frame. -/
def loaded (kernel : VmKernel) (now : Int) (space : AddrSpace) (contents : List Byte)
    (vpn page : Nat) : VmKernel :=
  { kernel with
    phyMemManager := kernel.phyMemManager.assign page kernel.currentThread vpn now
    virtMemManager := kernel.virtMemManager.setEntry kernel.currentThread vpn
      { space.pageTable vpn with valid := true, physicalPage := page }
    mainMemory := kernel.mainMemory.store (page * pageSize) (pageBytes contents vpn) }

/-- The two ways a page fault gets a frame: a free one, or the frame of another page. -/
inductive FrameTaken (kernel : VmKernel) : Nat → VmKernel → Prop
  | free {page : Nat} (inRange : page < numPhysPages)
    (clear : kernel.phyMemManager.phyMemoryMap.bit page = false)
    (first : ∀ q < page, kernel.phyMemManager.phyMemoryMap.bit q = true) :
    FrameTaken kernel page (kernel.claimed page)
  | swapped {page : Nat} {threadId : Int} {vpn : Nat} {space : AddrSpace} {contents : List Byte}
    (full : kernel.Full) (chosen : page = kernel.phyMemManager.swapOnePage)
    (inRange : page < numPhysPages)
    (owner : kernel.phyMemManager.phyMemPageTable page = ⟨threadId, vpn⟩)
    (live : kernel.getAddrSpaceOfThread threadId = some space) (below : vpn < space.numPages)
    (valid : (space.pageTable vpn).valid = true)
    (frame : (space.pageTable vpn).physicalPage = page)
    (opened : kernel.files space.exeFileId = some contents) :
    FrameTaken kernel page (kernel.evicted threadId vpn space contents page)

/-- Which frame a page fault gets is up to the frame table alone. -/
theorem FrameTaken.unique {other middle middle' : VmKernel} {page page' : Nat}
    (taken : kernel.FrameTaken page middle) (taken' : other.FrameTaken page' middle')
    (same : other.phyMemManager = kernel.phyMemManager) : page' = page := by
  -- By how each of the two takes its frame.
  cases taken with
  | free inRange clear first =>
    cases taken' with
    | free inRange' clear' first' =>
      -- Both take the first free frame.
      rw [same] at clear' first'
      rcases Nat.lt_trichotomy page' page with less | equal | more
      · rw [first page' less] at clear'
        cases clear'
      · exact equal
      · rw [first' page more] at clear
        cases clear
    -- If one has a free frame, so has the other.
    | swapped full =>
      have taken := full page inRange
      rw [same, clear] at taken
      cases taken
  | swapped full chosen =>
    -- If one is full, so is the other.
    cases taken' with
    | free inRange' clear' =>
      rw [same, full page' inRange'] at clear'
      cases clear'
    -- Both take the frame that the strategy names.
    | swapped full' chosen' =>
      rw [chosen', chosen, same]

/-- With no free frame, the frame table names a page to take the frame from, and it is taken. -/
theorem swapOut_taken (table : kernel.FrameTable) (full : kernel.Full) :
    ∃ page middle, kernel.swapOut = some (page, middle) ∧ kernel.FrameTaken page middle := by
  -- The strategy names a frame in range, which is taken like all others.
  have inRange : kernel.phyMemManager.swapOnePage < numPhysPages := by
    have below := @PhyMemManager.swapOnePage_lt kernel.phyMemManager
      (by rw [table.frames]; decide)
    rwa [table.frames] at below
  have taken := full _ inRange
  -- The frame has an owner, which the frame table records.
  obtain ⟨threadId, vpn, resident⟩ := table.owned _ inRange taken
  obtain ⟨q, same, -, -, owner⟩ := table.recorded threadId vpn _ resident
  obtain rfl : kernel.phyMemManager.swapOnePage = q := by exact_mod_cast same
  obtain ⟨space, live, below, valid, frame⟩ := resident
  obtain ⟨contents, opened⟩ := table.executable threadId space live
  refine ⟨_, kernel.evicted threadId vpn space contents kernel.phyMemManager.swapOnePage, ?_,
    .swapped full rfl inRange owner live below valid frame opened⟩
  -- With the owner at hand, every lookup of the code succeeds.
  have bounded : kernel.phyMemManager.swapOnePage < kernel.phyMemManager.phyMemoryMap.numBits := by
    rw [table.bits]
    exact inRange
  unfold swapOut
  simp only [PhyMemManager.getMainThread_taken bounded taken,
    PhyMemManager.getVirtualPage_taken bounded taken, owner, live, Option.bind_eq_bind,
    Option.bind_some, Int.natCast_nonneg, Int.ofNat_lt, below, and_self, if_true, Int.toNat_natCast]
  cases dirty : (space.pageTable vpn).dirty <;>
    simp [evicted, writeBack, setEntry, opened, dirty]

/-- A page fault always gets a frame. -/
theorem takeFrame_taken (table : kernel.FrameTable) :
    ∃ page middle, kernel.takeFrame = some (page, middle) ∧ kernel.FrameTaken page middle := by
  unfold takeFrame PhyMemManager.findOneEmptyPage
  rcases kernel.phyMemManager.phyMemoryMap.findAndSet_cases with
    ⟨page, below, clear, first, found⟩ | ⟨full, found⟩
  · -- The first free frame is marked and used.
    have marked : ((page : Nat) : Int) ≠ -1 := by omega
    refine ⟨page, kernel.claimed page, ?_, .free (table.bits ▸ below) clear first⟩
    simp [found, marked, claimed]
  · -- Every frame is taken, so the replacement strategy chooses one.
    obtain ⟨page, middle, swapped, taken⟩ := swapOut_taken table fun q inRange =>
      full q (by rw [table.bits]; exact inRange)
    exact ⟨page, middle, by simp [found, swapped], taken⟩

/-- One frame is marked as taken but no page is in it, and the rest of the frame table is right. -/
structure Vacant (kernel : VmKernel) (vacant : Nat) : Prop where
  frames : kernel.phyMemManager.phyPageNums = numPhysPages
  bits : kernel.phyMemManager.phyMemoryMap.numBits = numPhysPages
  inRange : vacant < numPhysPages
  taken : kernel.phyMemManager.phyMemoryMap.bit vacant = true
  recorded : ∀ threadId vpn page, kernel.Resident threadId vpn page →
    ∃ q : Nat, page = q ∧ q < numPhysPages ∧ q ≠ vacant ∧
      kernel.phyMemManager.phyMemoryMap.bit q = true ∧
      kernel.phyMemManager.phyMemPageTable q = ⟨threadId, vpn⟩
  owned : ∀ q < numPhysPages, q ≠ vacant → kernel.phyMemManager.phyMemoryMap.bit q = true →
    ∃ (threadId : Int) (vpn : Nat), kernel.Resident threadId vpn q
  executable : ∀ threadId space, kernel.getAddrSpaceOfThread threadId = some space →
    ∃ contents, kernel.files space.exeFileId = some contents

/-- An entry is replaced in the address space of its thread alone. -/
theorem getAddrSpaceOfThread_setEntry (kernel : VmKernel) (threadId : Int) (vpn : Nat)
    (entry : TranslationEntry) (other : Int) :
    (kernel.setEntry threadId vpn entry).getAddrSpaceOfThread other =
      if other = threadId then
        (kernel.getAddrSpaceOfThread threadId).map (·.setEntry vpn entry)
      else kernel.getAddrSpaceOfThread other :=
  kernel.virtMemManager.getAddrSpaceOfThread_setEntry threadId vpn entry other

/-- Replacing an entry gives no thread an address space, and no address space another file. -/
theorem live_setEntry {threadId : Int} {vpn : Nat} {entry : TranslationEntry} {other : Int}
    {after : AddrSpace}
    (live : (kernel.setEntry threadId vpn entry).getAddrSpaceOfThread other = some after) :
    ∃ before, kernel.getAddrSpaceOfThread other = some before ∧
      after.exeFileId = before.exeFileId := by
  rw [getAddrSpaceOfThread_setEntry] at live
  split at live
  · rename_i same
    obtain ⟨before, wasLive, rfl⟩ := Option.map_eq_some_iff.mp live
    exact ⟨before, same ▸ wasLive, rfl⟩
  · exact ⟨after, live, rfl⟩

/-- The residents after one entry of a live page table has been replaced. -/
theorem resident_setEntry {threadId : Int} {vpn : Nat} {space : AddrSpace}
    (live : kernel.getAddrSpaceOfThread threadId = some space) (below : vpn < space.numPages)
    (entry : TranslationEntry) (other : Int) (v : Nat) (page : Int) :
    (kernel.setEntry threadId vpn entry).Resident other v page ↔
      if other = threadId ∧ v = vpn then entry.valid = true ∧ entry.physicalPage = page
      else kernel.Resident other v page := by
  unfold Resident
  rw [getAddrSpaceOfThread_setEntry]
  -- Another thread keeps its pages.
  by_cases thread : other = threadId
  · subst thread
    -- The entry that is replaced, or another one.
    by_cases here : v = vpn
    · subst here
      simp [live, below]
    · simp [live, here]
  · simp [thread]

/-- Who is resident depends on the table of address spaces alone. -/
theorem resident_congr {other : VmKernel} (same : other.virtMemManager = kernel.virtMemManager)
    (threadId : Int) (vpn : Nat) (page : Int) :
    other.Resident threadId vpn page ↔ kernel.Resident threadId vpn page := by
  simp [Resident, getAddrSpaceOfThread, same]

/-- Taking a free frame leaves it vacant. -/
theorem FrameTable.claimed (table : kernel.FrameTable) {page : Nat} (inRange : page < numPhysPages)
    (clear : kernel.phyMemManager.phyMemoryMap.bit page = false) :
    (kernel.claimed page).Vacant page := by
  -- The frame is in range, and its bit is set from now on.
  have bounded : page < kernel.phyMemManager.phyMemoryMap.numBits := table.bits ▸ inRange
  have bit := kernel.phyMemManager.phyMemoryMap.bit_setBit bounded
  refine ⟨table.frames, table.bits, inRange, by simp [VmKernel.claimed, bit], ?_, ?_,
    table.executable⟩
  · -- A resident page lies in a frame that was taken before.
    intro threadId vpn frame resident
    obtain ⟨q, same, below, taken, owner⟩ :=
      table.recorded threadId vpn frame ((resident_congr rfl threadId vpn frame).mp resident)
    refine ⟨q, same, below, ?_, by simp [VmKernel.claimed, bit, taken], owner⟩
    rintro rfl
    rw [clear] at taken
    cases taken
  · -- The other frames have the owners that they had.
    intro q below other taken
    rw [VmKernel.claimed, bit q] at taken
    have before : kernel.phyMemManager.phyMemoryMap.bit q = true := by simpa [other] using taken
    obtain ⟨threadId, vpn, resident⟩ := table.owned q below before
    exact ⟨threadId, vpn, (resident_congr rfl threadId vpn q).mpr resident⟩

/-- After an eviction the page is gone and every other one stays where it was. -/
theorem resident_evicted {threadId : Int} {vpn : Nat} {space : AddrSpace}
    (live : kernel.getAddrSpaceOfThread threadId = some space) (below : vpn < space.numPages)
    (contents : List Byte) (frame : Nat) (other : Int) (v : Nat) (page : Int) :
    (kernel.evicted threadId vpn space contents frame).Resident other v page ↔
      ¬ (other = threadId ∧ v = vpn) ∧ kernel.Resident other v page := by
  have entry : (kernel.evicted threadId vpn space contents frame).Resident other v page ↔
      (kernel.setEntry threadId vpn { space.pageTable vpn with valid := false }).Resident
        other v page := resident_congr rfl other v page
  -- The entry is invalid now, and the others stay.
  rw [entry, resident_setEntry live below]
  split
  · rename_i here
    simp [here]
  · rename_i elsewhere
    exact ⟨fun resident => ⟨elsewhere, resident⟩, And.right⟩

/-- Every file that was there is there after an eviction. -/
theorem evicted_files {threadId : Int} {vpn : Nat} {space : AddrSpace} {contents : List Byte}
    {frame : Nat} {name : FileName} {held : List Byte} (opened : kernel.files name = some held) :
    ∃ now, (kernel.evicted threadId vpn space contents frame).files name = some now := by
  by_cases same : name = space.exeFileId
  · cases dirty : (space.pageTable vpn).dirty
    · exact ⟨held, by simp [evicted, dirty, opened]⟩
    · exact ⟨writeAt contents (kernel.mainMemory.frame frame) (AddrSpace.fileOffset vpn),
        by simp only [evicted, dirty, if_true, same, Function.update_self]⟩
  · refine ⟨held, ?_⟩
    cases dirty : (space.pageTable vpn).dirty <;> simp [evicted, dirty, same, opened]

/-- An address space after an eviction has the file that it had before. -/
theorem evicted_live {threadId : Int} {vpn : Nat} {space : AddrSpace} {contents : List Byte}
    {frame : Nat} {other : Int} {after : AddrSpace}
    (live : (kernel.evicted threadId vpn space contents frame).getAddrSpaceOfThread other =
      some after) :
    ∃ before, kernel.getAddrSpaceOfThread other = some before ∧
      after.exeFileId = before.exeFileId := by
  have looked : (kernel.setEntry threadId vpn
      { space.pageTable vpn with valid := false }).getAddrSpaceOfThread other = some after := live
  exact live_setEntry looked

/-- Evicting the page of a frame leaves the frame vacant. -/
theorem FrameTable.evicted (table : kernel.FrameTable) {page : Nat} {threadId : Int} {vpn : Nat}
    {space : AddrSpace} (full : kernel.Full) (inRange : page < numPhysPages)
    (owner : kernel.phyMemManager.phyMemPageTable page = ⟨threadId, vpn⟩)
    (live : kernel.getAddrSpaceOfThread threadId = some space) (below : vpn < space.numPages)
    (contents : List Byte) : (kernel.evicted threadId vpn space contents page).Vacant page := by
  -- The clauses of a frame table with one frame vacant.
  refine ⟨table.frames, table.bits, inRange, full page inRange, ?_, ?_, ?_⟩
  · -- A page that is resident is in another frame.
    intro other v frame resident
    obtain ⟨different, resident⟩ := (resident_evicted live below contents page other v frame).mp resident
    obtain ⟨q, same, belowQ, taken, recorded⟩ := table.recorded other v frame resident
    refine ⟨q, same, belowQ, ?_, taken, recorded⟩
    -- Whoever is recorded for the frame is the page that was evicted.
    rintro rfl
    rw [owner] at recorded
    cases recorded
    exact different ⟨rfl, rfl⟩
  · -- Another frame has the owner that it had.
    intro q belowQ different taken
    obtain ⟨other, v, resident⟩ := table.owned q belowQ taken
    refine ⟨other, v, (resident_evicted live below contents page other v q).mpr ⟨?_, resident⟩⟩
    rintro ⟨rfl, rfl⟩
    -- The evicted page was in this frame and in no other.
    obtain ⟨p, same, -, -, recorded⟩ := table.recorded other v q resident
    obtain ⟨o, w, occupant⟩ := table.owned page inRange (full page inRange)
    obtain ⟨p', same', -, -, recorded'⟩ := table.recorded o w page occupant
    obtain rfl : page = p' := by exact_mod_cast same'
    rw [owner] at recorded'
    cases recorded'
    obtain ⟨s, liveS, -, -, frameS⟩ := occupant
    obtain ⟨s', liveS', -, -, frameS'⟩ := resident
    rw [liveS] at liveS'
    cases liveS'
    rw [frameS] at frameS'
    exact different (by exact_mod_cast frameS'.symm)
  · -- The executables are there, though one may have been written to.
    intro other after looked
    obtain ⟨before, wasLive, file⟩ := evicted_live looked
    obtain ⟨held, opened⟩ := table.executable other before wasLive
    rw [file]
    exact evicted_files opened

/-- Either way of getting a frame leaves it vacant. -/
theorem FrameTaken.vacant {page : Nat} {middle : VmKernel} (table : kernel.FrameTable)
    (taken : kernel.FrameTaken page middle) : middle.Vacant page := by
  cases taken with
  | free inRange clear first => exact table.claimed inRange clear
  | swapped full chosen inRange owner live below valid frame opened =>
    exact table.evicted full inRange owner live below _

/-- After a page has been brought in it is resident, and nothing else has changed place. -/
theorem resident_loaded {space : AddrSpace} {vpn : Nat}
    (live : kernel.getAddrSpaceOfThread kernel.currentThread = some space)
    (below : vpn < space.numPages) (now : Int) (contents : List Byte) (frame : Nat) (other : Int)
    (v : Nat) (page : Int) :
    (kernel.loaded now space contents vpn frame).Resident other v page ↔
      if other = kernel.currentThread ∧ v = vpn then page = frame
      else kernel.Resident other v page := by
  have entry : (kernel.loaded now space contents vpn frame).Resident other v page ↔
      (kernel.setEntry kernel.currentThread vpn { space.pageTable vpn with
        valid := true, physicalPage := frame }).Resident other v page :=
    resident_congr rfl other v page
  -- The entry of the page is valid now, and the others stay.
  rw [entry, resident_setEntry live below]
  split
  · simp [eq_comm]
  · rfl

/-- Bringing a page into the vacant frame completes the frame table. -/
theorem Vacant.loaded {page vpn : Nat} {space : AddrSpace} (vacant : kernel.Vacant page)
    (live : kernel.getAddrSpaceOfThread kernel.currentThread = some space)
    (below : vpn < space.numPages) (invalid : (space.pageTable vpn).valid = false) (now : Int)
    (contents : List Byte) : (kernel.loaded now space contents vpn page).FrameTable := by
  -- The page itself was in no frame.
  have absent : ∀ frame, ¬ kernel.Resident kernel.currentThread vpn frame := by
    rintro frame ⟨found, looked, -, valid, -⟩
    rw [live] at looked
    cases looked
    rw [invalid] at valid
    cases valid
  have residents := resident_loaded live below now contents page
  refine ⟨vacant.frames, vacant.bits, ?_, ?_, ?_⟩
  · -- A resident page is the new one, or was resident before.
    intro other v frame resident
    rw [residents] at resident
    split at resident
    · -- The new page is recorded for the frame it is in.
      rename_i here
      exact ⟨page, resident, vacant.inRange, vacant.taken,
        by simp [VmKernel.loaded, PhyMemManager.assign, here]⟩
    · -- The others lie in other frames, whose records stay.
      obtain ⟨q, same, belowQ, different, taken, owner⟩ := vacant.recorded other v frame resident
      exact ⟨q, same, belowQ, taken,
        by simp [VmKernel.loaded, PhyMemManager.assign, different, owner]⟩
  · -- Every frame that is taken has an owner.
    intro q belowQ taken
    -- The frame that was vacant belongs to the page now.
    by_cases same : q = page
    · refine ⟨kernel.currentThread, vpn, (residents _ _ _).mpr ?_⟩
      simp [same]
    · obtain ⟨other, v, resident⟩ := vacant.owned q belowQ same taken
      refine ⟨other, v, (residents other v q).mpr ?_⟩
      rw [if_neg]
      · exact resident
      · rintro ⟨rfl, rfl⟩
        exact absent q resident
  · -- The executables are the same.
    intro other after looked
    have looked : (kernel.setEntry kernel.currentThread vpn { space.pageTable vpn with
        valid := true, physicalPage := page }).getAddrSpaceOfThread other = some after := looked
    obtain ⟨before, wasLive, file⟩ := live_setEntry looked
    rw [file]
    exact vacant.executable other before wasLive

/-- Reading a page into the frame it was given succeeds. -/
theorem bringIn_eq {page vpn : Nat} {space : AddrSpace} {contents : List Byte}
    (vacant : kernel.Vacant page) (opened : kernel.files space.exeFileId = some contents)
    (now : Int) :
    kernel.bringIn now space vpn page = some (kernel.loaded now space contents vpn page) := by
  have bounded : page < kernel.phyMemManager.phyMemoryMap.numBits := vacant.bits ▸ vacant.inRange
  have recorded := PhyMemManager.assign_eq bounded vacant.taken kernel.currentThread vpn now
  -- The frame table is brought up to date before the page table and the memory.
  have split : kernel.bringIn now space vpn page =
      (do
        let phys ← kernel.phyMemManager.setVirtualPage page vpn
        let phys ← phys.setMainThreadId page kernel.currentThread
        phys.updatePageWeight page now).bind fun phys =>
      (kernel.files space.exeFileId).bind fun contents =>
        some { { kernel with phyMemManager := phys }.setEntry kernel.currentThread vpn
            { space.pageTable vpn with valid := true, physicalPage := page } with
          mainMemory := kernel.mainMemory.store (page * pageSize) (pageBytes contents vpn) } := by
    simp only [Option.bind_eq_bind, Option.bind_assoc]
    rfl
  -- What remains is the executable, which opens.
  rw [split, recorded]
  simp only [Option.bind_some, opened]
  rfl

/-- Getting a frame changes nothing of a page that is not in one. -/
theorem FrameTaken.live {page vpn : Nat} {middle : VmKernel} {threadId : Int} {space : AddrSpace}
    (taken : kernel.FrameTaken page middle)
    (live : kernel.getAddrSpaceOfThread threadId = some space)
    (invalid : (space.pageTable vpn).valid = false) :
    ∃ after, middle.getAddrSpaceOfThread threadId = some after ∧
      after.numPages = space.numPages ∧ after.exeFileId = space.exeFileId ∧
      after.pageTable vpn = space.pageTable vpn := by
  cases taken with
  -- Taking a free frame changes no page table.
  | free => exact ⟨space, live, rfl, rfl, rfl⟩
  | @swapped owner v victim contents _ _ _ _ looked _ valid _ _ =>
    have found := kernel.getAddrSpaceOfThread_setEntry owner v
      { victim.pageTable v with valid := false } threadId
    change (kernel.evicted owner v victim contents page).getAddrSpaceOfThread threadId = _ at found
    by_cases same : threadId = owner
    · -- The thread lost another page of its own.
      subst same
      rw [live] at looked
      cases looked
      rw [if_pos rfl, live] at found
      have different : vpn ≠ v := by
        rintro rfl
        rw [invalid] at valid
        cases valid
      exact ⟨_, found, rfl, rfl, by simp [different]⟩
    · -- The space of another thread loses a page.
      rw [if_neg same] at found
      exact ⟨space, found.trans live, rfl, rfl, rfl⟩

/-- Getting a frame does not change which thread runs. -/
theorem FrameTaken.currentThread {page : Nat} {middle : VmKernel}
    (taken : kernel.FrameTaken page middle) : middle.currentThread = kernel.currentThread := by
  cases taken <;> rfl

/-- A fault on a page that is not in memory takes a frame and reads the page into it. -/
theorem pageFaultHandler_loads {vpn : Nat} {space : AddrSpace} (table : kernel.FrameTable)
    (live : kernel.getAddrSpaceOfThread kernel.currentThread = some space)
    (below : vpn < space.numPages) (invalid : (space.pageTable vpn).valid = false) (now : Int) :
    ∃ page middle after contents, kernel.FrameTaken page middle ∧
      middle.getAddrSpaceOfThread kernel.currentThread = some after ∧
      after.numPages = space.numPages ∧ after.exeFileId = space.exeFileId ∧
      after.pageTable vpn = space.pageTable vpn ∧
      middle.files space.exeFileId = some contents ∧
      kernel.pageFaultHandler now vpn = some (middle.loaded now after contents vpn page) := by
  -- A frame is taken first, and the page is then brought into it.
  obtain ⟨page, middle, found, taken⟩ := takeFrame_taken table
  obtain ⟨after, lives, pages, file, entry⟩ := taken.live live invalid
  have vacant := taken.vacant table
  obtain ⟨contents, opened⟩ := vacant.executable kernel.currentThread after lives
  refine ⟨page, middle, after, contents, taken, lives, pages, file, entry, file ▸ opened, ?_⟩
  -- The page is read into the frame.
  have looked : middle.getAddrSpaceOfThread middle.currentThread = some after :=
    taken.currentThread ▸ lives
  simp [pageFaultHandler, live, below, invalid, found, looked, bringIn_eq vacant opened]

/-- A fault on a page that is in memory already does nothing. -/
theorem pageFaultHandler_valid {vpn : Nat} {space : AddrSpace}
    (live : kernel.getAddrSpaceOfThread kernel.currentThread = some space)
    (below : vpn < space.numPages) (valid : (space.pageTable vpn).valid = true) (now : Int) :
    kernel.pageFaultHandler now vpn = some kernel := by
  simp [pageFaultHandler, live, below, valid]

end VmKernel

end Nachos
