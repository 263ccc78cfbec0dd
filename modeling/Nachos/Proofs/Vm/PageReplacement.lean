import Nachos.Proofs.Vm.OwnWrites
import Nachos.Theory.Least

/-! Which page leaves memory when all frames are taken: the one that was brought in first. -/

namespace Nachos

/-- The frame into which `pageFaultHandler` brings a page, unless the page is in memory. -/
def VmKernel.broughtInto (kernel : VmKernel) (vpn : Nat) : Option Nat := do
  let space ← kernel.getAddrSpaceOfThread kernel.currentThread
  if (space.pageTable vpn).valid then none
  else return (← kernel.takeFrame).1

/-- When each frame last got a page, and when the page in it was last accessed. -/
structure Usage where
  brought : Nat → Int
  accessed : Nat → Int

namespace Usage

/-- A page is brought into a frame, which counts as an access. -/
def bring (usage : Usage) (now : Int) (frame : Nat) : Usage where
  brought := Function.update usage.brought frame now
  accessed := Function.update usage.accessed frame now

/-- The page in a frame is read or written. -/
def access (usage : Usage) (now : Int) (frame : Nat) : Usage :=
  { usage with accessed := Function.update usage.accessed frame now }

/-- A page fault brings its page in. -/
def fault (usage : Usage) (kernel : VmKernel) (now : Int) (vpn : Nat) : Usage :=
  match kernel.broughtInto vpn with
  | some frame => usage.bring now frame
  | none => usage

/-- The page fault that an access raises, if it raises one. -/
def miss (usage : Usage) (kernel : VmKernel) (now : Int) (addr : Word) (size : Nat)
    (writing : Bool) : Usage :=
  match kernel.translate addr size writing with
  | some (.error .pageFaultException, missed) => usage.fault missed now (addr.toNat / pageSize)
  | _ => usage

/-- An access uses the frame where it finds its address in the end. -/
def locate (usage : Usage) (kernel : VmKernel) (now : Int) (addr : Word) (size : Nat)
    (writing : Bool) : Usage :=
  match kernel.locate now addr size writing with
  | some (physAddr, _) =>
    (usage.miss kernel now addr size writing).access now (physAddr / pageSize)
  | none => usage.miss kernel now addr size writing

/-- The use of the frames after an event. -/
def after (usage : Usage) (kernel : VmKernel) : Int × VmEvent → Usage
  | (now, .fault vpn) => usage.fault kernel now vpn
  | (now, .read _ addr size) => usage.locate kernel now addr size false
  | (now, .write _ addr size _) => usage.locate kernel now addr size true
  | _ => usage

end Usage

/-- The memory with a record of how its frames are used. -/
structure WatchedMemory where
  kernel : VmKernel
  usage : Usage

/-- One event at some time, which is recorded. -/
def WatchedMemory.step (watched : WatchedMemory) (timed : Int × VmEvent) : Option WatchedMemory :=
  (watched.kernel.step timed).map fun kernel => ⟨kernel, watched.usage.after watched.kernel timed⟩

namespace PhyMemManager

variable {phys : PhyMemManager}

/-- The frame to take away has the least recorded time. -/
theorem swapOnePage_le {frame : Nat} (inRange : frame < phys.phyPageNums) :
    phys.lastUsedTimeTable phys.swapOnePage ≤ phys.lastUsedTimeTable frame := by
  unfold swapOnePage
  -- The loop of the strategy starts at frame 0 and compares all frames.
  rw [oldestFrom_eq]
  exact leastFrom_le phys.lastUsedTimeTable
    (List.mem_cons_of_mem 0 (List.mem_range.mpr inRange))

end PhyMemManager

namespace Bitmap

/-- Clearing a bit sets no other one. -/
theorem clear_some {bitmap after : Bitmap} {which : Int} (cleared : bitmap.clear which = some after) :
    after.numBits = bitmap.numBits ∧ ∀ i, after.bit i = true → bitmap.bit i = true := by
  -- The bit is in range, and was set, or the call aborts.
  unfold clear at cleared
  split at cleared
  swap
  · cases cleared
  rename_i inRange
  dsimp only at cleared
  split at cleared
  · cases cleared
    refine ⟨rfl, fun i taken => ?_⟩
    -- A bit that is still set was set before.
    rw [bit_clearBit _ (by omega), Bool.and_eq_true] at taken
    exact taken.2
  · cases cleared

end Bitmap

/-- Deleting an address space marks no frame as taken, and changes no recorded time. -/
theorem VirtMemManager.clearPages_some {entry : AddrSpace} {indices : List Nat} :
    ∀ {phys after : PhyMemManager}, clearPages entry phys indices = some after →
      after.phyPageNums = phys.phyPageNums ∧
      after.lastUsedTimeTable = phys.lastUsedTimeTable ∧
      after.phyMemoryMap.numBits = phys.phyMemoryMap.numBits ∧
      ∀ q, after.phyMemoryMap.bit q = true → phys.phyMemoryMap.bit q = true := by
  -- By induction on the pages that are looked at.
  induction indices with
  | nil =>
    intro phys after cleared
    cases cleared
    exact ⟨rfl, rfl, rfl, fun _ taken => taken⟩
  -- A page that is not in memory is passed over.
  | cons i rest ih =>
    intro phys after cleared
    unfold clearPages at cleared
    dsimp only at cleared
    split at cleared
    · -- The frame of a page that is in memory is freed.
      obtain ⟨middle, freed, cleared⟩ := Option.bind_eq_some_iff.mp cleared
      obtain ⟨map, clear, freed⟩ := Option.bind_eq_some_iff.mp freed
      cases freed
      obtain ⟨size, times, bits, taken⟩ := ih cleared
      obtain ⟨same, fewer⟩ := Bitmap.clear_some clear
      exact ⟨size, times, bits.trans same, fun q holds => fewer q (taken q holds)⟩
    · exact ih cleared

namespace VmKernel

variable {kernel after : VmKernel} {page vpn : Nat} {now : Int}

/-- Throwing a page out changes nothing in the frame table. -/
theorem swapOut_phys (swapped : kernel.swapOut = some (page, after)) :
    page = kernel.phyMemManager.swapOnePage ∧ after.phyMemManager = kernel.phyMemManager := by
  obtain ⟨swapThreadId, -, swapped⟩ := Option.bind_eq_some_iff.mp swapped
  obtain ⟨swapVirtPage, -, swapped⟩ := Option.bind_eq_some_iff.mp swapped
  obtain ⟨space, -, swapped⟩ := Option.bind_eq_some_iff.mp swapped
  -- From here on the frame table is only read.
  dsimp only at swapped
  split at swapped
  swap
  · cases swapped
  split at swapped
  · -- A dirty page is written back first.
    obtain ⟨middle, wrote, swapped⟩ := Option.bind_eq_some_iff.mp swapped
    obtain ⟨contents, -, wrote⟩ := Option.bind_eq_some_iff.mp wrote
    cases wrote
    cases swapped
    exact ⟨rfl, rfl⟩
  · cases swapped
    exact ⟨rfl, rfl⟩

/-- The frame that is found is taken from then on, and no other frame is that was not before. -/
theorem takeFrame_phys (frames : kernel.phyMemManager.phyPageNums = numPhysPages)
    (bits : kernel.phyMemManager.phyMemoryMap.numBits = numPhysPages)
    (found : kernel.takeFrame = some (page, after)) :
    page < numPhysPages ∧ after.phyMemManager.phyMemoryMap.bit page = true ∧
      (∀ q, q ≠ page → after.phyMemManager.phyMemoryMap.bit q = true →
        kernel.phyMemManager.phyMemoryMap.bit q = true) ∧
      after.phyMemManager = { kernel.phyMemManager with
        phyMemoryMap := after.phyMemManager.phyMemoryMap } ∧
      after.phyMemManager.phyMemoryMap.numBits = numPhysPages := by
  unfold takeFrame PhyMemManager.findOneEmptyPage at found
  rcases kernel.phyMemManager.phyMemoryMap.findAndSet_cases with
    ⟨free, below, -, -, marked⟩ | ⟨full, marked⟩
  · -- The first free frame is marked.
    have named : ((free : Nat) : Int) ≠ -1 := by omega
    simp only [marked, Option.bind_eq_bind, Option.bind_some, if_neg named, Int.toNat_natCast,
      Option.pure_def, Option.some.injEq, Prod.mk.injEq] at found
    obtain ⟨rfl, rfl⟩ := found
    -- It was clear, and no other bit has changed.
    refine ⟨bits ▸ below, ?_, fun q other taken => ?_, rfl, bits⟩
    · rw [Bitmap.bit_setBit _ below]
      simp
    · rw [Bitmap.bit_setBit _ below] at taken
      simpa [other] using taken
  · -- No frame is free, so one is emptied, which was and stays taken.
    simp only [marked, Option.bind_eq_bind, Option.bind_some] at found
    obtain ⟨rfl, same⟩ := swapOut_phys found
    -- The frame to empty is one that there is.
    have inRange : kernel.phyMemManager.swapOnePage < numPhysPages := by
      have below := @PhyMemManager.swapOnePage_lt kernel.phyMemManager (by rw [frames]; decide)
      rwa [frames] at below
    rw [same]
    exact ⟨inRange, full _ (by rw [bits]; exact inRange), fun _ _ taken => taken, rfl, bits⟩

/-- Reading a page in records the time for its frame. -/
theorem bringIn_phys {space : AddrSpace}
    (inRange : page < kernel.phyMemManager.phyMemoryMap.numBits)
    (taken : kernel.phyMemManager.phyMemoryMap.bit page = true)
    (brought : kernel.bringIn now space vpn page = some after) :
    after.phyMemManager = kernel.phyMemManager.assign page kernel.currentThread vpn now := by
  -- The entry is made in three steps, and then the page is read.
  obtain ⟨first, one, brought⟩ := Option.bind_eq_some_iff.mp brought
  obtain ⟨second, two, brought⟩ := Option.bind_eq_some_iff.mp brought
  obtain ⟨third, three, brought⟩ := Option.bind_eq_some_iff.mp brought
  obtain ⟨contents, -, brought⟩ := Option.bind_eq_some_iff.mp brought
  cases brought
  -- The three steps on the frame table are those of `assign`.
  have recorded := PhyMemManager.assign_eq inRange taken kernel.currentThread vpn now
  simp only [one, two, Option.bind_eq_bind, Option.bind_some] at recorded
  rw [three] at recorded
  exact Option.some.inj recorded

end VmKernel

namespace WatchedMemory

variable {watched after : WatchedMemory} {last now : Int}

/-- The frame is marked as taken. -/
abbrev Taken (watched : WatchedMemory) (frame : Nat) : Prop :=
  frame < numPhysPages ∧ watched.kernel.phyMemManager.phyMemoryMap.bit frame = true

/-- The times that the memory manager has recorded are those at which pages were brought in. -/
structure Tallied (watched : WatchedMemory) (last : Int) : Prop where
  frames : watched.kernel.phyMemManager.phyPageNums = numPhysPages
  bits : watched.kernel.phyMemManager.phyMemoryMap.numBits = numPhysPages
  times : ∀ q, watched.Taken q →
    watched.kernel.phyMemManager.lastUsedTimeTable q = watched.usage.brought q
  past : ∀ q, watched.Taken q → watched.usage.brought q ≤ last
  -- No two pages are brought in at the same time.
  apart : ∀ p q, watched.Taken p → watched.Taken q →
    watched.usage.brought p = watched.usage.brought q → p = q

/-- It matters only which frames are taken, and when pages were brought in. -/
-- Each clause of the record follows from the one before.
theorem Tallied.congr (tallied : watched.Tallied last)
    (frames : after.kernel.phyMemManager.phyPageNums = watched.kernel.phyMemManager.phyPageNums)
    (times : after.kernel.phyMemManager.lastUsedTimeTable =
      watched.kernel.phyMemManager.lastUsedTimeTable)
    (bits : after.kernel.phyMemManager.phyMemoryMap.numBits =
      watched.kernel.phyMemManager.phyMemoryMap.numBits)
    (fewer : ∀ q, after.kernel.phyMemManager.phyMemoryMap.bit q = true →
      watched.kernel.phyMemManager.phyMemoryMap.bit q = true)
    (brought : after.usage.brought = watched.usage.brought) (order : last ≤ now) :
    after.Tallied now where
  frames := frames.trans tallied.frames
  bits := bits.trans tallied.bits
  -- A frame that is still taken was taken before.
  times q taken := by
    rw [times, brought]
    exact tallied.times q ⟨taken.1, fewer q taken.2⟩
  -- The clock has gone on since.
  past q taken := by
    rw [brought]
    exact (tallied.past q ⟨taken.1, fewer q taken.2⟩).trans order
  -- Two frames with the same time are the same.
  apart p q first second same := by
    rw [brought] at same
    exact tallied.apart p q ⟨first.1, fewer p first.2⟩ ⟨second.1, fewer q second.2⟩ same

/-- A page that is brought in later than all others keeps the record right. -/
theorem Tallied.bring (tallied : watched.Tallied last) (order : last < now) {frame : Nat}
    (frames : after.kernel.phyMemManager.phyPageNums = watched.kernel.phyMemManager.phyPageNums)
    (times : after.kernel.phyMemManager.lastUsedTimeTable =
      Function.update watched.kernel.phyMemManager.lastUsedTimeTable frame now)
    (bits : after.kernel.phyMemManager.phyMemoryMap.numBits =
      watched.kernel.phyMemManager.phyMemoryMap.numBits)
    (more : ∀ q, q ≠ frame → after.kernel.phyMemManager.phyMemoryMap.bit q = true →
      watched.kernel.phyMemManager.phyMemoryMap.bit q = true)
    (brought : after.usage.brought = Function.update watched.usage.brought frame now) :
    after.Tallied now where
  frames := frames.trans tallied.frames
  bits := bits.trans tallied.bits
  -- The frame that is filled has the time of now, and the others keep theirs.
  times q taken := by
    rw [times, brought]
    by_cases here : q = frame
    · rw [here, Function.update_self, Function.update_self]
    · rw [Function.update_of_ne here, Function.update_of_ne here]
      exact tallied.times q ⟨taken.1, more q here taken.2⟩
  -- Nothing was brought in later than now.
  past q taken := by
    rw [brought]
    by_cases here : q = frame
    · rw [here, Function.update_self]
    · rw [Function.update_of_ne here]
      exact (tallied.past q ⟨taken.1, more q here taken.2⟩).trans order.le
  apart p q first second same := by
    rw [brought] at same
    -- The page brought in now differs from all others in its time, and those were apart before.
    by_cases here : p = frame <;> by_cases there : q = frame
    · rw [here, there]
    · -- The other page was brought in before now.
      rw [here, Function.update_self, Function.update_of_ne there] at same
      have earlier := tallied.past q ⟨second.1, more q there second.2⟩
      omega
    · -- So was this one.
      rw [there, Function.update_self, Function.update_of_ne here] at same
      have earlier := tallied.past p ⟨first.1, more p here first.2⟩
      omega
    · -- Two other frames were apart before.
      rw [Function.update_of_ne here, Function.update_of_ne there] at same
      exact tallied.apart p q ⟨first.1, more p here first.2⟩ ⟨second.1, more q there second.2⟩ same

/-- A page fault that is served keeps the record right. -/
theorem Tallied.fault (tallied : watched.Tallied last) (order : last < now) {vpn : Nat}
    {kernel : VmKernel} (handled : watched.kernel.pageFaultHandler now vpn = some kernel) :
    Tallied ⟨kernel, watched.usage.fault watched.kernel now vpn⟩ now := by
  -- The page lies within an address space, or the fault aborts.
  obtain ⟨space, live, handled⟩ := Option.bind_eq_some_iff.mp handled
  split at handled
  swap
  · cases handled
  cases valid : (space.pageTable vpn).valid with
  | true =>
    -- The page is in memory, so nothing happens.
    rw [valid, if_pos rfl] at handled
    cases handled
    have absent : watched.kernel.broughtInto vpn = none := by
      simp [VmKernel.broughtInto, live, valid]
    unfold Usage.fault
    rw [absent]
    exact tallied.congr rfl rfl rfl (fun _ taken => taken) rfl order.le
  | false =>
    rw [valid] at handled
    obtain ⟨⟨page, middle⟩, found, handled⟩ := Option.bind_eq_some_iff.mp handled
    obtain ⟨space', -, brought⟩ := Option.bind_eq_some_iff.mp handled
    -- A frame is taken, and the time is recorded for it.
    obtain ⟨inRange, taken, more, same, bits⟩ :=
      VmKernel.takeFrame_phys tallied.frames tallied.bits found
    have recorded := VmKernel.bringIn_phys (by rw [bits]; exact inRange) taken brought
    have into : watched.kernel.broughtInto vpn = some page := by
      simp [VmKernel.broughtInto, live, valid, found]
    unfold Usage.fault
    rw [into]
    -- The frame table has one more page, brought in now.
    refine tallied.bring order ?_ ?_ ?_ (fun q other holds => more q other ?_) rfl
    · rw [recorded, same]
      rfl
    · rw [recorded, same]
      rfl
    · rw [recorded]
      exact bits.trans tallied.bits.symm
    · rw [recorded] at holds
      exact holds

/-- A translation does not touch the frame table. -/
theorem translate_phys {kernel next : VmKernel} {addr : Word} {size : Nat} {writing : Bool}
    {result : Except ExceptionType Int}
    (translated : kernel.translate addr size writing = some (result, next)) :
    next.phyMemManager = kernel.phyMemManager := by
  -- Only page tables and the TLB can change, in a translation that fails or succeeds.
  cases result with
  | error exception =>
    obtain ⟨tlb, rfl⟩ := VmKernel.translate_error translated
    rfl
  | ok physAddr =>
    rcases VmKernel.translate_cases translated with ⟨-, -, rfl⟩ | ⟨middle, rfl, walked⟩
    · -- The TLB has answered.
      rfl
    · rcases VmKernel.walk_cases walked with
        ⟨_, -, rfl, -⟩ | ⟨threadId, space, -, -, -, -, -, -, rfl⟩
      · -- The walk has failed.
        rfl
      · -- The walk has marked the page table.
        cases writing <;> rfl

/-- An access that finds its place keeps the record right, with a page fault or without. -/
theorem Tallied.locate (tallied : watched.Tallied last) (order : last < now) {addr : Word}
    {size physAddr : Nat} {writing : Bool} {kernel : VmKernel}
    (located : watched.kernel.locate now addr size writing = some (physAddr, kernel)) :
    Tallied ⟨kernel, watched.usage.locate watched.kernel now addr size writing⟩ now := by
  unfold Usage.locate
  rw [located]
  obtain ⟨middle, result, translated, -, rfl | ⟨missed, raised, handled⟩⟩ :=
    VmKernel.locate_cases located
  · -- The first translation finds the place.
    have same := translate_phys translated
    unfold Usage.miss
    rw [translated]
    exact tallied.congr (by rw [same]) (by rw [same]) (by rw [same])
      (fun q taken => by rwa [same] at taken) rfl order.le
  · -- There was a page fault.
    have found := translate_phys raised
    have same := translate_phys translated
    -- The page fault comes between the two translations.
    have before : Tallied ⟨missed, watched.usage⟩ last :=
      tallied.congr (by rw [found]) (by rw [found]) (by rw [found])
        (fun q taken => by rwa [found] at taken) rfl le_rfl
    -- It is served, and brings in a page.
    have served := before.fault order handled
    unfold Usage.miss
    rw [raised]
    exact served.congr (by rw [same]) (by rw [same]) (by rw [same])
      (fun q taken => by rwa [same] at taken) rfl le_rfl

/-- Every event keeps the record right. -/
theorem Tallied.step (tallied : watched.Tallied last) {timed : Int × VmEvent}
    (order : last < timed.1) (stepped : watched.step timed = some after) :
    after.Tallied timed.1 := by
  obtain ⟨now, event⟩ := timed
  obtain ⟨kernel, went, rfl⟩ := Option.map_eq_some_iff.mp stepped
  obtain ⟨⟨result, next⟩, served, rfl⟩ := Option.map_eq_some_iff.mp went
  -- By cases on the event.
  cases event with
  -- A new address space has no page in memory.
  | create threadId filename stack uninitialised =>
    obtain ⟨virt, -, served⟩ := Option.bind_eq_some_iff.mp served
    cases served
    exact tallied.congr rfl rfl rfl (fun _ taken => taken) rfl order.le
  | delete threadId =>
    obtain ⟨⟨virt, phys⟩, deleted, served⟩ := Option.bind_eq_some_iff.mp served
    cases served
    unfold VirtMemManager.deleteAddrSpace at deleted
    split at deleted
    · -- There is no address space to delete.
      cases deleted
      exact tallied.congr rfl rfl rfl (fun _ taken => taken) rfl order.le
    · obtain ⟨cleared, clear, deleted⟩ := Option.bind_eq_some_iff.mp deleted
      cases deleted
      -- Frames of the process are freed, and what is recorded of the others is right.
      obtain ⟨frames, times, bits, fewer⟩ := VirtMemManager.clearPages_some clear
      exact tallied.congr frames times bits fewer rfl order.le
  | switchTo threadId =>
    -- Switching threads loads another page table, and leaves the frames.
    obtain ⟨-, rfl⟩ := Prod.mk.inj (Option.some.inj served)
    have same : (watched.kernel.runThread threadId).phyMemManager =
        watched.kernel.phyMemManager := by
      unfold VmKernel.runThread
      dsimp only
      split <;> rfl
    exact tallied.congr (by rw [same]) (by rw [same]) (by rw [same])
      (fun q taken => by rwa [same] at taken) rfl order.le
  -- A page fault comes with its own time.
  | fault vpn =>
    obtain ⟨last, handled, served⟩ := Option.bind_eq_some_iff.mp served
    cases served
    exact tallied.fault order handled
  -- A read looks for its place only.
  | read threadId addr size =>
    obtain ⟨physAddr, located⟩ := VmKernel.serve_read served
    exact tallied.locate order located
  -- A store changes bytes, and no record.
  | write threadId addr size value =>
    obtain ⟨physAddr, found, mainMemory, located, rfl⟩ := VmKernel.serve_write served
    exact (tallied.locate order located).congr rfl rfl rfl (fun _ taken => taken) rfl le_rfl

/-- Under a clock that goes forward, the record is right after every run. -/
theorem Tallied.run {events : List (Int × VmEvent)} :
    ∀ {watched after : WatchedMemory} {last : Int}, watched.Tallied last →
      (∀ timed ∈ events, last < timed.1) → events.Pairwise (fun earlier later =>
        earlier.1 < later.1) →
      replay WatchedMemory.step watched events = some after → ∃ last, after.Tallied last := by
  -- Each event comes later than all that has been recorded before it.
  induction events with
  | nil =>
    intro watched after last tallied _ _ ran
    cases ran
    exact ⟨last, tallied⟩
  -- The rest of the run starts with the time of this event.
  | cons timed rest ih =>
    intro watched after last tallied later clock ran
    obtain ⟨next, stepped, ran⟩ := Option.bind_eq_some_iff.mp ran
    obtain ⟨first, clock⟩ := List.pairwise_cons.mp clock
    exact ih (tallied.step (later timed List.mem_cons_self) stepped) first clock ran

/-- Nothing is in memory at the start, so nothing has to be recorded. -/
theorem tallied_boot (files : UnixFiles) (mainMemory : MainMemory) (tlb : TLB)
    (owners : Nat → PhyMemPageEntry) (currentThread : Int) (usage : Usage) (last : Int) :
    Tallied ⟨.boot files mainMemory tlb owners currentThread, usage⟩ last := by
  have free : ∀ q, ¬ Taken ⟨.boot files mainMemory tlb owners currentThread, usage⟩ q := by
    -- The map of the frames is empty.
    intro q taken
    simp [Taken, VmKernel.boot, PhyMemManager.new] at taken
  exact ⟨rfl, rfl, fun q taken => absurd taken (free q), fun q taken => absurd taken (free q),
    fun p _ taken => absurd taken (free p)⟩

/-- The frame with the page that was last accessed longest ago. -/
def LeastRecent (watched : WatchedMemory) (frame : Nat) : Prop :=
  ∀ other < numPhysPages, other ≠ frame →
    watched.usage.accessed frame < watched.usage.accessed other

/-- The frame with the page that was brought in longest ago. -/
def FirstIn (watched : WatchedMemory) (frame : Nat) : Prop :=
  ∀ other < numPhysPages, other ≠ frame →
    watched.usage.brought frame < watched.usage.brought other

instance (watched : WatchedMemory) (frame : Nat) : Decidable (watched.LeastRecent frame) :=
  inferInstanceAs (Decidable (∀ other < numPhysPages, _))

instance (watched : WatchedMemory) (frame : Nat) : Decidable (watched.FirstIn frame) :=
  inferInstanceAs (Decidable (∀ other < numPhysPages, _))

/-- With no frame free, the strategy takes the page that was brought in first. -/
theorem Tallied.firstIn_iff (tallied : watched.Tallied last) (full : watched.kernel.Full)
    {frame : Nat} (inRange : frame < numPhysPages) :
    watched.FirstIn frame ↔ frame = watched.kernel.phyMemManager.swapOnePage := by
  have taken : ∀ q < numPhysPages, watched.Taken q := fun q below => ⟨below, full q below⟩
  -- The frame that is chosen is in range.
  have chosen : watched.kernel.phyMemManager.swapOnePage < numPhysPages := by
    have below := @PhyMemManager.swapOnePage_lt watched.kernel.phyMemManager
      (by rw [tallied.frames]; decide)
    rwa [tallied.frames] at below
  -- The recorded times are those at which the pages were brought in.
  have least : ∀ other < numPhysPages,
      watched.usage.brought watched.kernel.phyMemManager.swapOnePage ≤
        watched.usage.brought other := by
    intro other below
    rw [← tallied.times _ (taken _ chosen), ← tallied.times other (taken other below)]
    exact PhyMemManager.swapOnePage_le (by rw [tallied.frames]; exact below)
  constructor
  · intro first
    -- Of two different pages, only one was brought in before the other.
    by_contra apart
    have before := first _ chosen (Ne.symm apart)
    have after := least frame inRange
    omega
  · -- The frame that is chosen is earlier than any other, since no two times are the same.
    rintro rfl other below apart
    have different : watched.usage.brought watched.kernel.phyMemManager.swapOnePage ≠
        watched.usage.brought other := fun same =>
      apart (tallied.apart _ other (taken _ chosen) (taken other below) same).symm
    have order := least other below
    omega

end WatchedMemory

/--
Page replacement takes the least recently used page exactly if that page was also brought in first.

The strategy is told about a page when it is brought in, and never about an access.
-/
theorem swapOnePage_leastRecent_iff (files : UnixFiles) (mainMemory : MainMemory) (tlb : TLB)
    (owners : Nat → PhyMemPageEntry) (currentThread : Int) (usage : Usage)
    (events : List (Int × VmEvent))
    (clock : events.Pairwise fun earlier later => earlier.1 < later.1) (watched : WatchedMemory)
    (reached : replay WatchedMemory.step
      ⟨.boot files mainMemory tlb owners currentThread, usage⟩ events = some watched)
    (full : watched.kernel.Full) :
    watched.LeastRecent watched.kernel.phyMemManager.swapOnePage ↔
      ∃ frame < numPhysPages, watched.FirstIn frame ∧ watched.LeastRecent frame := by
  -- Some time lies before the whole run.
  obtain ⟨start, later⟩ : ∃ start : Int, ∀ timed ∈ events, start < timed.1 := by
    -- By cases on the run, whose first event comes before the others.
    cases events with
    | nil => exact ⟨0, fun timed member => absurd member List.not_mem_nil⟩
    | cons first rest =>
      refine ⟨first.1 - 1, fun timed member => ?_⟩
      rcases List.mem_cons.mp member with same | after
      · rw [same]
        omega
      · have order := (List.pairwise_cons.mp clock).1 timed after
        omega
  obtain ⟨last, tallied⟩ := WatchedMemory.Tallied.run
    (WatchedMemory.tallied_boot files mainMemory tlb owners currentThread usage start) later clock
    reached
  -- If the choice is the least recently used page, it is the first that came in too.
  constructor
  · intro recent
    have chosen := @PhyMemManager.swapOnePage_lt watched.kernel.phyMemManager
      (by rw [tallied.frames]; decide)
    rw [tallied.frames] at chosen
    exact ⟨_, chosen, (tallied.firstIn_iff full chosen).mpr rfl, recent⟩
  · -- The page brought in first is the one that is taken.
    rintro ⟨frame, inRange, first, recent⟩
    rwa [← (tallied.firstIn_iff full inRange).mp first]

/-- A machine on which nothing has happened yet, with an executable of 158 pages. -/
def idleMemory : WatchedMemory where
  kernel := .boot (fun _ => some (hollowProgram 150)) (fun _ => 0) (fun _ _ => ⟨0, 0, true, 0, 0⟩)
    (fun _ => ⟨0, 0⟩) 0
  usage := ⟨fun _ => 0, fun _ => 0⟩

/-- A process starts, and reads one page after the other until no frame is free. -/
def readingThrough : List (Int × VmEvent) :=
  [(1, .create 0 [1] [] ⟨0, 0, [], AddrSpace.freshEntry⟩), (2, .switchTo 0)] ++
    (List.range 128).map fun i : Nat =>
      (((3 + i : Nat) : Int), VmEvent.read 0 (BitVec.ofNat 32 (128 * i)) 1)

/-- The run, and what one more read of the page that was brought in first leaves of it. -/
theorem readingThrough_again : ∃ watched again,
    replay WatchedMemory.step idleMemory readingThrough = some watched ∧
    watched.step (200, .read 0 5 1) = some again ∧
    (watched.kernel.Full ∧ watched.FirstIn 0 ∧ watched.LeastRecent 0) ∧
    again.kernel.Full ∧ again.kernel.phyMemManager.swapOnePage = 0 ∧
    again.usage.accessed 0 = 200 ∧ again.usage.accessed 1 = 4 := by
  -- Both states are evaluated in one pass, since the run is a long one.
  have evaluated : ((replay WatchedMemory.step idleMemory readingThrough).bind fun watched =>
      (watched.step (200, .read 0 5 1)).map fun again =>
        (decide (watched.kernel.Full ∧ watched.FirstIn 0 ∧ watched.LeastRecent 0),
          decide again.kernel.Full, again.kernel.phyMemManager.swapOnePage,
          again.usage.accessed 0, again.usage.accessed 1)) = some (true, true, 0, 200, 4) := by
    decide +kernel
  obtain ⟨watched, reached, values⟩ := Option.bind_eq_some_iff.mp evaluated
  obtain ⟨again, stepped, values⟩ := Option.map_eq_some_iff.mp values
  simp only [Prod.mk.injEq, decide_eq_true_eq] at values
  exact ⟨watched, again, reached, stepped, values⟩

/-- If no page is used again, the first one in is the least recently used one. -/
theorem swapOnePage_leastRecent_once : ∃ watched,
    replay WatchedMemory.step idleMemory readingThrough = some watched ∧ watched.kernel.Full ∧
    watched.LeastRecent watched.kernel.phyMemManager.swapOnePage := by
  obtain ⟨watched, -, reached, -, ⟨full, first, recent⟩, -⟩ := readingThrough_again
  exact ⟨watched, reached, full, (swapOnePage_leastRecent_iff _ _ _ _ 0 _ readingThrough
    (by decide +kernel) watched reached full).mpr ⟨0, by decide, first, recent⟩⟩

/-- The page that was brought in first is read again, and is taken away next all the same. -/
theorem swapOnePage_justUsed : ∃ watched,
    replay WatchedMemory.step idleMemory (readingThrough ++ [(200, .read 0 5 1)]) = some watched ∧
    watched.kernel.Full ∧ watched.kernel.phyMemManager.swapOnePage = 0 ∧
    watched.usage.accessed 0 = 200 ∧ watched.usage.accessed 1 = 4 ∧
    ¬ watched.LeastRecent watched.kernel.phyMemManager.swapOnePage := by
  -- The run reads frame 0 once more than the one that chooses it.
  obtain ⟨middle, watched, reached, stepped, -, full, chosen, again, once⟩ := readingThrough_again
  refine ⟨watched, ?_, full, chosen, again, once, fun recent => ?_⟩
  · -- That read is the last step of the run.
    rw [replay_append reached, replay_cons stepped]
    rfl
  · -- Frame 1 was used at 4, and frame 0 at 200.
    have order := recent 1 (by decide) (by rw [chosen]; decide)
    rw [chosen, again, once] at order
    omega

end Nachos
