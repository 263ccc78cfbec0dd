import Nachos.Proofs.Machine.Reaches
import Nachos.Proofs.Threads.Children
import Nachos.Proofs.Threads.Finish
import Nachos.Proofs.Threads.UserState
import Nachos.Proofs.Vm.Shape
import Nachos.Threads.ThreadManager

/-! A new thread gets a new address space, as long as no thread leaves one behind. -/

namespace Nachos

namespace ThreadSystem

variable {sys next : ThreadSystem}

/-- After a step the current thread is the same, or it runs. -/
theorem Moved.stays_or_runs (moved : sys.Moved next) (inv : next.Invariant) :
    next.currentThread = sys.currentThread ∨ next.status next.currentThread = .running := by
  cases moved with
  | stays _ _ current => exact .inl current
  | finishes _ _ current => exact .inl current
  | sleeps _ _ _ current => exact .inl current
  | yields _ _ _ phase => exact .inr (inv.current (by simp [phase]))
  | forks _ _ _ _ _ phase => exact .inr (inv.current (by simp [phase]))
  | dispatches _ _ _ _ phase => exact .inr (inv.current (by simp [phase]))

/-- Who sleeps for good is done. -/
theorem Moved.finishing (moved : sys.Moved next) (onward : sys.Onward next)
    (before : sys.phase = .sleeping true → sys.status sys.currentThread = .zommbie)
    (asleep : next.phase = .sleeping true) : next.status next.currentThread = .zommbie := by
  -- Only a thread that finishes goes to sleep for good.
  cases moved with
  -- The thread stays where it is, so it was asleep for good before.
  | stays _ _ current phase =>
    rw [current]
    rcases phase with same | ⟨-, executing⟩
    · exact onward.done _ (before (same ▸ asleep))
    · rw [executing] at asleep
      cases asleep
  -- `Finish` marks its caller before it sleeps.
  | finishes _ _ current _ done =>
    rw [current]
    exact done
  -- The other steps go to sleep for a semaphore, or not at all.
  | sleeps _ _ _ _ phase =>
    rw [phase] at asleep
    cases asleep
  | yields _ _ _ phase | forks _ _ _ _ _ phase | dispatches _ _ _ _ phase =>
    rw [phase] at asleep
    cases asleep

end ThreadSystem

/-- The managers of the memory are as they were, whatever the machine has been told. -/
structure VmKernel.SameManagers (kernel after : VmKernel) : Prop where
  files : after.files = kernel.files
  virt : after.virtMemManager = kernel.virtMemManager
  phys : after.phyMemManager = kernel.phyMemManager

namespace UserSystem

variable {sys next : UserSystem}

/-- A step of the threads gives the machine other registers and another page table at most. -/
theorem step_thread {event : ThreadEvent} (stepped : sys.step (.thread event) = some next) :
    sys.threads.step event = some next.threads ∧ next.pid = sys.pid ∧
      sys.machine.kernel.SameManagers next.machine.kernel := by
  -- The threads take their step, and then the registers follow the processor.
  obtain ⟨threads, went, stepped⟩ := Option.bind_eq_some_iff.mp stepped
  split at stepped
  · cases stepped
    refine ⟨went, ?_⟩
    unfold goOn comeBack
    dsimp only
    split
    · exact ⟨rfl, rfl, rfl, rfl⟩
    -- A thread that comes back restores its registers if it has an address space.
    all_goals
      split <;> exact ⟨rfl, rfl, rfl, rfl⟩
  split at stepped
  · -- A thread was switched out: its registers are kept aside.
    cases stepped
    refine ⟨went, ?_⟩
    unfold leave
    dsimp only
    split <;> exact ⟨rfl, rfl, rfl, rfl⟩
  · -- Nothing was switched, and the machine is as it was.
    cases stepped
    exact ⟨went, rfl, rfl, rfl, rfl⟩

/-- Any other step is made of accesses to the memory. -/
theorem step_machine {event : UserEvent} (machine : ∀ inner, event ≠ .thread inner)
    (stepped : sys.step event = some next) :
    next.threads = sys.threads ∧ next.pid = sys.pid ∧ ∃ middle,
      sys.machine.kernel.Reaches middle ∧ middle.SameManagers next.machine.kernel := by
  -- Instructions and the flush go to the machine, and the rest leave it alone.
  cases event with
  | thread inner => exact absurd rfl (machine inner)
  | instruction now =>
    simp only [UserSystem.step] at stepped
    split at stepped
    · obtain ⟨after, run, stepped⟩ := Option.bind_eq_some_iff.mp stepped
      -- An instruction reaches its memory by accesses.
      cases stepped
      exact ⟨rfl, rfl, _, Machine.step_reaches run, rfl, rfl, rfl⟩
    · cases stepped
  | flush =>
    simp only [UserSystem.step] at stepped
    split at stepped
    · cases stepped
    · obtain ⟨after, run, stepped⟩ := Option.bind_eq_some_iff.mp stepped
      cases stepped
      exact ⟨rfl, rfl, _, Machine.step_reaches run, rfl, rfl, rfl⟩
  -- Setting the page table is no access.
  | execute space =>
    simp only [UserSystem.step] at stepped
    split at stepped
    · cases stepped
      exact ⟨rfl, rfl, _, .refl, rfl, rfl, rfl⟩
    · cases stepped

end UserSystem

namespace ProcessSystem

variable {sys next : ProcessSystem}

/-- What the thread manager knows about the threads. -/
structure Numbered (sys : ProcessSystem) : Prop where
  threads : sys.user.threads.Invariant
  finishing : sys.user.threads.phase = .sleeping true →
    sys.user.threads.status sys.user.threads.currentThread = .zommbie
  current : sys.Live sys.user.threads.currentThread
  carcass : ∀ thread, sys.user.threads.toBeDestroyed = some thread →
    sys.Live thread ∧ sys.user.threads.status thread = .zommbie
  gone : ∀ thread, sys.deleted thread = true → sys.user.threads.status thread = .zommbie
  size : sys.threadMap.numBits = threadCountMax
  counted : sys.user.threads.threadCnt + sys.threadMap.numClear = threadCountMax
  -- Each thread that is not deleted has a pid of its own.
  numbered : ∀ thread, sys.Live thread → ∃ pid : Nat,
    sys.user.pid thread = pid ∧ pid < threadCountMax ∧ sys.threadMap.bit pid = true
  apart : ∀ thread other, sys.Live thread → sys.Live other →
    sys.user.pid thread = sys.user.pid other → thread = other

/-- The threads that are not deleted have pids of their own. -/
theorem Numbered.pids (num : sys.Numbered) : Pids sys.threadMap sys.Live sys.user.pid :=
  ⟨num.size, num.numbered, num.apart⟩

/-- At the start there is the main thread, which has the first pid. -/
theorem numbered_start (initialValue : Nat → Int) (registers : Nat → Word) (files : UnixFiles)
    (mainMemory : MainMemory) (tlb : TLB) (owners : Nat → PhyMemPageEntry)
    (uninitialised : ThreadNumber → Nat → Word) :
    (start initialValue registers files mainMemory tlb owners uninitialised).Numbered := by
  -- The bitmap is that of the constructor, with one bit set.
  have empty : (Bitmap.new threadCountMax).numBits = threadCountMax := rfl
  have first : 0 < (Bitmap.new threadCountMax).numBits := by decide
  refine ⟨ThreadSystem.invariant_start initialValue, fun asleep => ?_, ⟨Nat.zero_lt_one, rfl⟩,
    fun thread carcass => ?_, fun thread gone => ?_, rfl, ?_, fun thread live => ?_, ?_⟩
  · -- Nobody is asleep, nobody is to be destroyed, and nobody is deleted.
    cases asleep
  · cases carcass
  · cases gone
  · -- One pid of all is taken.
    have one := Bitmap.numClear_setBit _ first (Bitmap.bit_new threadCountMax 0)
    rw [Bitmap.numClear_new] at one
    exact (Nat.add_comm _ _).trans one
  · -- The main thread has pid 0, whose bit is set.
    refine ⟨0, rfl, by decide, ?_⟩
    change ((Bitmap.new threadCountMax).setBit 0).bit 0 = true
    rw [Bitmap.bit_setBit _ first]
    rfl
  · -- There are no two threads.
    intro thread other live also _
    exact (Nat.lt_one_iff.mp live.1).trans (Nat.lt_one_iff.mp also.1).symm

/-- The threads go on, and the thread manager deletes nobody but the carcass. -/
theorem Numbered.goesOn (num : sys.Numbered) {event : ThreadEvent}
    (stepped : sys.user.threads.step event = some next.user.threads)
    (created : sys.user.threads.created ≤ next.user.threads.created)
    (deleted : ∀ thread, next.deleted thread = true →
      sys.deleted thread = true ∨ sys.user.threads.toBeDestroyed = some thread)
    (carcass : next.user.threads.toBeDestroyed = none ∨
      (next.user.threads.toBeDestroyed = some sys.user.threads.currentThread ∧
        sys.user.threads.phase = .sleeping true))
    (counted : next.user.threads.threadCnt + next.threadMap.numClear = threadCountMax)
    (pids : Pids next.threadMap next.Live next.user.pid) : next.Numbered := by
  -- What the threads do leads on, by one of their moves.
  have onward := num.threads.step stepped
  have moved := num.threads.moved stepped
  have gone : ∀ thread, next.deleted thread = true →
      next.user.threads.status thread = .zommbie := by
    intro thread isDeleted
    -- Whoever is deleted now was deleted before, or is the carcass; both are done.
    rcases deleted thread isDeleted with before | dead
    · exact onward.done thread (num.gone thread before)
    · exact onward.done thread (num.carcass thread dead).2
  -- The carcass of another thread is deleted when a thread has been switched to.
  have spared : next.deleted sys.user.threads.currentThread = false := by
    -- If it were deleted, it would be done.
    cases isDeleted : next.deleted sys.user.threads.currentThread with
    | false => rfl
    | true =>
      exfalso
      -- Had it been the carcass, the thread that runs would be done.
      rcases deleted _ isDeleted with before | dead
      · rw [num.current.2] at before
        cases before
      · have resuming : sys.user.threads.phase = .resuming := by
          by_contra other
          rw [num.threads.destroyed other] at dead
          cases dead
        have runs := num.threads.current (by simp [resuming])
        rw [(num.carcass _ dead).2] at runs
        cases runs
  -- So the thread that has just run is live.
  have kept : next.Live sys.user.threads.currentThread :=
    ⟨Nat.lt_of_lt_of_le num.current.1 created, spared⟩
  refine ⟨onward.inv, moved.finishing onward num.finishing, ?_, ?_, gone, pids.size, counted,
    pids.numbered, pids.apart⟩
  · -- The thread that runs next runs, so it is not done and not deleted.
    rcases moved.stays_or_runs onward.inv with same | runs
    · rw [same]
      exact kept
    · refine ⟨onward.inv.created_of_used (by simp [runs]), ?_⟩
      cases isDeleted : next.deleted next.user.threads.currentThread with
      | false => rfl
      | true =>
        rw [gone _ isDeleted] at runs
        cases runs
  · -- A new carcass is the thread that was switched away from, which is done.
    intro thread dead
    rcases carcass with none | ⟨current, asleep⟩
    · -- There is no new one.
      rw [none] at dead
      cases dead
    · rw [current] at dead
      cases dead
      exact ⟨kept, onward.done _ (num.finishing asleep)⟩

/-- The thread manager does not run threads or touch memory. -/
theorem manage_frame {event : UserEvent} {managed : ProcessSystem}
    (done : sys.manage event = some managed) : managed.user.threads = sys.user.threads ∧
      managed.user.machine = sys.user.machine ∧ managed.asked = sys.asked := by
  unfold manage at done
  split at done
  · -- By cases on the event: only two of them concern the thread manager.
    unfold createThread at done
    split at done
    · -- There is room, and the new thread gets a pid.
      obtain ⟨⟨pid, threadMap⟩, -, done⟩ := Option.bind_eq_some_iff.mp done
      cases done
      exact ⟨rfl, rfl, rfl⟩
    · cases done
      exact ⟨rfl, rfl, rfl⟩
  · -- After a `SWITCH` the carcass loses its pid.
    split at done
    · obtain ⟨threadMap, -, done⟩ := Option.bind_eq_some_iff.mp done
      cases done
      exact ⟨rfl, rfl, rfl⟩
    · cases done
      exact ⟨rfl, rfl, rfl⟩
  · cases done
    exact ⟨rfl, rfl, rfl⟩

/-- There is a pid for a new thread as long as there is room for one. -/
theorem Numbered.createThread (num : sys.Numbered)
    (room : sys.user.threads.threadCnt + 1 < threadCountMax) :
    ∃ pid < threadCountMax, sys.threadMap.bit pid = false ∧
      sys.createThread = some { sys with
        threadMap := sys.threadMap.setBit pid
        user := { sys.user with
          pid := Function.update sys.user.pid sys.user.threads.created pid } } := by
  -- Fewer pids than there are bits are taken, so a clear bit is found.
  have counted := num.counted
  obtain ⟨pid, found, takes⟩ := sys.threadMap.findAndSet_takes (by omega)
  -- The pid is in range, and nobody has it.
  obtain ⟨inRange, clear⟩ := takes.clear pid List.mem_cons_self
  refine ⟨pid, num.size ▸ inRange, clear, ?_⟩
  unfold ProcessSystem.createThread
  rw [if_pos room, found]
  rfl

/-- The pid of a thread that is deleted is in use until then. -/
theorem Numbered.deleteThread (num : sys.Numbered) {thread : ThreadNumber}
    (live : sys.Live thread) : ∃ pid < threadCountMax, sys.user.pid thread = (pid : Nat) ∧
      sys.threadMap.bit pid = true ∧ sys.deleteThread thread = some { sys with
        threadMap := sys.threadMap.clearBit pid
        deleted := Function.update sys.deleted thread true } := by
  -- A live thread has a pid, and its bit is set.
  obtain ⟨pid, number, below, used⟩ := num.numbered thread live
  have inRange : pid < sys.threadMap.numBits := num.size ▸ below
  have cleared := sys.threadMap.clear_inRange inRange
  refine ⟨pid, below, number, used, ?_⟩
  unfold ProcessSystem.deleteThread
  rw [number, cleared]
  rfl

/-- The threads go on without the thread manager. -/
theorem Numbered.unmanaged (num : sys.Numbered) {event : ThreadEvent}
    (went : sys.user.threads.step event = some next.user.threads)
    (created : next.user.threads.created = sys.user.threads.created)
    (count : next.user.threads.threadCnt = sys.user.threads.threadCnt)
    (carcass : next.user.threads.toBeDestroyed = none ∨
      (next.user.threads.toBeDestroyed = some sys.user.threads.currentThread ∧
        sys.user.threads.phase = .sleeping true))
    (pid : next.user.pid = sys.user.pid) (threadMap : next.threadMap = sys.threadMap)
    (deleted : next.deleted = sys.deleted) : next.Numbered := by
  refine num.goesOn went (Nat.le_of_eq created.symm) (fun thread gone => .inl (deleted ▸ gone))
    carcass ?_ ?_
  · -- Neither the count nor the bits have changed.
    rw [count, threadMap]
    exact num.counted
  · -- The pids are those from before.
    unfold Live
    rw [pid, created, deleted, threadMap]
    exact num.pids

/-- A new thread has a pid that nobody else has. -/
theorem Numbered.creates (num : sys.Numbered) {event : ThreadEvent}
    (went : sys.user.threads.step event = some next.user.threads)
    (created : next.user.threads.created = sys.user.threads.created + 1)
    (count : next.user.threads.threadCnt = sys.user.threads.threadCnt + 1)
    (clean : next.user.threads.toBeDestroyed = none) {i : Nat} (below : i < threadCountMax)
    (free : sys.threadMap.bit i = false)
    (pid : next.user.pid = Function.update sys.user.pid sys.user.threads.created i)
    (threadMap : next.threadMap = sys.threadMap.setBit i) (deleted : next.deleted = sys.deleted) :
    next.Numbered := by
  -- The bit is in range.
  have inRange : i < sys.threadMap.numBits := num.size ▸ below
  -- One bit more is set, and one thread more is counted.
  have counted := num.counted
  have one := Bitmap.numClear_setBit sys.threadMap inRange free
  -- The new thread has the new pid, and the others have theirs.
  have pids : Pids next.threadMap next.Live next.user.pid := by
    rw [threadMap, pid]
    refine num.pids.takes below free fun thread live other => ⟨?_, deleted ▸ live.2⟩
    have less : thread < next.user.threads.created := live.1
    rw [created] at less
    exact Nat.lt_of_le_of_ne (Nat.le_of_lt_succ less) other
  -- Nobody is deleted.
  refine num.goesOn went (by omega) (fun thread gone => .inl (deleted ▸ gone)) (.inl clean) ?_ pids
  rw [count, threadMap]
  omega

/-- When the carcass is deleted, its pid is free, and the others have theirs. -/
theorem Numbered.deletes (num : sys.Numbered) {event : ThreadEvent}
    (went : sys.user.threads.step event = some next.user.threads)
    (created : next.user.threads.created = sys.user.threads.created)
    (count : next.user.threads.threadCnt = sys.user.threads.threadCnt - 1)
    (clean : next.user.threads.toBeDestroyed = none) {carcass : ThreadNumber}
    (dead : sys.user.threads.toBeDestroyed = some carcass) {i : Nat} (below : i < threadCountMax)
    (number : sys.user.pid carcass = (i : Nat)) (used : sys.threadMap.bit i = true)
    (pid : next.user.pid = sys.user.pid) (threadMap : next.threadMap = sys.threadMap.clearBit i)
    (deleted : next.deleted = Function.update sys.deleted carcass true) : next.Numbered := by
  -- The carcass is live until it is deleted, so one bit is cleared with its pid.
  -- Its pid is marked until now.
  obtain ⟨live, -⟩ := num.carcass carcass dead
  have inRange : i < sys.threadMap.numBits := num.size ▸ below
  have counted := num.counted
  have one := Bitmap.numClear_clearBit sys.threadMap inRange used
  have most := Bitmap.numClear_le (sys.threadMap.clearBit i)
  rw [Bitmap.numBits_clearBit, num.size] at most
  -- Whoever is left was there before, and is not the carcass.
  have left : ∀ thread, next.Live thread → sys.Live thread ∧ thread ≠ carcass := by
    intro thread still
    obtain ⟨less, kept⟩ := still
    rw [deleted] at kept
    have different : thread ≠ carcass := by
      rintro rfl
      rw [Function.update_self] at kept
      cases kept
    rw [Function.update_of_ne different] at kept
    exact ⟨⟨created ▸ less, kept⟩, different⟩
  -- The pids of those that are left are their own.
  have pids : Pids next.threadMap next.Live next.user.pid := by
    rw [threadMap, pid]
    exact num.pids.frees live number left
  -- Whoever is marked now was marked before, or is the carcass.
  refine num.goesOn went (by omega) (fun thread gone => ?_) (.inl clean) ?_ pids
  · rw [deleted] at gone
    -- It is the carcass that is deleted now.
    by_cases same : thread = carcass
    · exact .inr (same ▸ dead)
    · -- The others were deleted before.
      rw [Function.update_of_ne same] at gone
      exact .inl gone
  · -- One thread less is counted.
    rw [count, threadMap]
    omega

/-- The thread manager keeps its books when the threads take a step. -/
theorem Numbered.manage (num : sys.Numbered) {event : ThreadEvent} {managed : ProcessSystem}
    (done : sys.manage (.thread event) = some managed)
    (went : sys.user.threads.step event = some next.user.threads)
    (pid : next.user.pid = managed.user.pid) (threadMap : next.threadMap = managed.threadMap)
    (deleted : next.deleted = managed.deleted) : next.Numbered := by
  have counts := num.threads.counts went
  -- Only a thread that is made or deleted has to do with the numbers.
  -- A new thread gets the pid that was found.
  cases counts with
  | creates room created count clean =>
    obtain ⟨i, below, free, creates⟩ := num.createThread room
    obtain rfl : _ = managed := Option.some.inj (creates.symm.trans done)
    dsimp only at pid threadMap deleted
    exact num.creates went created count clean below free pid threadMap deleted
  -- There is no room, and nothing changes.
  | refuses full created count clean =>
    have unchanged : sys.createThread = some sys := if_neg full
    obtain rfl : sys = managed := Option.some.inj (unchanged.symm.trans done)
    exact num.unmanaged went created count (.inl clean) pid threadMap deleted
  -- Neither of the two: the manager does nothing.
  | goesOn neither created count carcass =>
    have unchanged : sys.manage (.thread event) = some sys := by
      unfold ProcessSystem.manage
      split
      · rename_i same
        exact absurd (UserEvent.thread.inj same) neither.1
      · rename_i same
        exact absurd (UserEvent.thread.inj same) neither.2
      · rfl
    obtain rfl : sys = managed := Option.some.inj (unchanged.symm.trans done)
    exact num.unmanaged went created count carcass pid threadMap deleted
  -- The return from `SWITCH` deletes the carcass, if there is one.
  | resumes resuming created count clean =>
    simp only [ProcessSystem.manage] at done
    unfold ThreadSystem.checkToBeDestroyed at count
    cases dead : sys.user.threads.toBeDestroyed with
    | none =>
      rw [dead] at done count
      cases done
      exact num.unmanaged went created count (.inl clean) pid threadMap deleted
    | some carcass =>
      rw [dead] at done count
      obtain ⟨live, -⟩ := num.carcass carcass dead
      obtain ⟨i, below, number, used, deletes⟩ := num.deleteThread live
      obtain rfl : _ = managed := Option.some.inj (deletes.symm.trans done)
      dsimp only at pid threadMap deleted count
      exact num.deletes went created count clean dead below number used pid threadMap deleted

/-- What the thread manager leaves alone: the pids of older threads, and all but the carcass. -/
theorem manage_known {event : UserEvent} {managed : ProcessSystem}
    (done : sys.manage event = some managed) :
    (∀ thread < sys.user.threads.created, managed.user.pid thread = sys.user.pid thread) ∧
      (∀ thread, sys.deleted thread = true → managed.deleted thread = true) ∧
      ∀ thread, managed.deleted thread = true → sys.deleted thread = true ∨
        (event = .thread .resume ∧ sys.user.threads.toBeDestroyed = some thread) := by
  -- By cases on the event, as the definition has them.
  unfold manage at done
  split at done
  · unfold ProcessSystem.createThread at done
    split at done
    · -- A new thread: only its own pid is written.
      obtain ⟨⟨pid, threadMap⟩, -, done⟩ := Option.bind_eq_some_iff.mp done
      cases done
      exact ⟨fun thread below => Function.update_of_ne (Nat.ne_of_lt below) _ _, fun _ => id,
        fun _ => .inl⟩
    · -- No room, nothing written.
      cases done
      exact ⟨fun _ _ => rfl, fun _ => id, fun _ => .inl⟩
  · -- The carcass is deleted: no pid is written, and one mark is set.
    split at done
    · rename_i carcass dead
      obtain ⟨threadMap, -, done⟩ := Option.bind_eq_some_iff.mp done
      cases done
      refine ⟨fun _ _ => rfl, fun thread gone => ?_, fun thread gone => ?_⟩
      -- The carcass is the one thread that is marked.
      all_goals
        by_cases same : thread = carcass
      · rw [same]
        exact Function.update_self _ _ _
      · exact (Function.update_of_ne same _ _).trans gone
      · exact .inr ⟨rfl, same ▸ dead⟩
      · exact .inl ((Function.update_of_ne same _ _).symm.trans gone)
    · cases done
      exact ⟨fun _ _ => rfl, fun _ => id, fun _ => .inl⟩
  · -- Any other event.
    cases done
    exact ⟨fun _ _ => rfl, fun _ => id, fun _ => .inl⟩

/-- What the memory manager holds for the threads. -/
structure Spaces (sys : ProcessSystem) : Prop where
  table : sys.memory.FrameTable
  size : sys.memory.virtMemManager.virtMemTableSize = threadCountMax
  -- An address space belongs to a thread that is not deleted, which has asked for it.
  owner : ∀ pid space, sys.memory.getAddrSpaceOfThread pid = some space →
    ∃ thread, sys.Live thread ∧ sys.asked thread = true ∧ sys.user.pid thread = pid

/-- Accesses keep the address spaces, whose threads stay what they are. -/
theorem Spaces.through (spaces : sys.Spaces) {middle : VmKernel}
    (reaches : sys.memory.Reaches middle) (same : middle.SameManagers next.memory)
    (owners : ∀ thread space, sys.Live thread →
      sys.memory.getAddrSpaceOfThread (sys.user.pid thread) = some space →
      next.Live thread ∧ next.asked thread = sys.asked thread ∧
        next.user.pid thread = sys.user.pid thread) : next.Spaces := by
  -- Accesses change neither the number of spaces nor what they are made of.
  have shape := reaches.sameThread.shape
  refine ⟨(spaces.table.reaches reaches).congr same.files same.virt same.phys, ?_, ?_⟩
  · rw [same.virt, shape.size]
    exact spaces.size
  · intro pid space held
    have before : middle.virtMemManager.getAddrSpaceOfThread pid = some space := by
      rw [← same.virt]
      exact held
    -- The space was there before, in the same shape, and its owner has kept its number.
    obtain ⟨former, had, -⟩ := shape.symm.live before
    obtain ⟨thread, live, asked, rfl⟩ := spaces.owner pid former had
    obtain ⟨still, record, number⟩ := owners thread former live had
    exact ⟨thread, still, record.trans asked, number⟩

/-- A frame is taken, and recorded for the pid. -/
def MarkedFor (sys : ProcessSystem) (frame : Nat) (pid : Int) : Prop :=
  sys.memory.phyMemManager.phyMemoryMap.bit frame = true ∧
    (sys.memory.phyMemManager.phyMemPageTable frame).mainThreadId = pid

/-- No frame is recorded for a pid that nobody has. -/
theorem Spaces.unmarked (spaces : sys.Spaces) {pid : Int}
    (nobody : ∀ thread, sys.Live thread → sys.user.pid thread ≠ pid) :
    -- A frame that is taken is recorded in the page table of its owner.
    ∀ frame < numPhysPages, ¬ sys.MarkedFor frame pid := by
  intro frame below ⟨taken, recorded⟩
  obtain ⟨threadId, vpn, resident⟩ := spaces.table.owned frame below taken
  obtain ⟨q, same, -, -, owner⟩ := spaces.table.recorded threadId vpn frame resident
  obtain rfl : frame = q := by exact_mod_cast same
  -- Whoever is in the frame has an address space, and so a thread.
  obtain ⟨space, held, -⟩ := resident
  obtain ⟨thread, live, -, number⟩ := spaces.owner threadId space held
  rw [owner] at recorded
  exact nobody thread live (number.trans recorded)

/--
No thread is destroyed while it has an address space, and executables can be opened.

The second half is about the address spaces that are really built: a thread that has one keeps it.
-/
def Tidy (sys : ProcessSystem) : ProcessEvent → Prop
  | .user (.thread .resume) => ∀ thread ∈ sys.user.threads.toBeDestroyed,
      sys.memory.getAddrSpaceOfThread (sys.user.pid thread) = none
  | .createAddrSpace thread filename _ _ =>
    sys.memory.getAddrSpaceOfThread (sys.user.pid thread) = none →
      (sys.memory.files filename).isSome = true
  | _ => True

instance (sys : ProcessSystem) : ∀ event, Decidable (sys.Tidy event)
  | .user (.thread .resume) =>
    inferInstanceAs (Decidable (∀ thread ∈ sys.user.threads.toBeDestroyed, _ = none))
  | .createAddrSpace thread filename _ _ =>
    inferInstanceAs (Decidable (sys.memory.getAddrSpaceOfThread (sys.user.pid thread) = none →
      (sys.memory.files filename).isSome = true))
  | .user (.thread .createThread) | .user (.thread (.setPriority _ _)) | .user (.thread (.fork _))
  | .user (.thread .yield) | .user (.thread (.p _)) | .user (.thread (.v _))
  | .user (.thread .finish) | .user (.thread (.interrupt _)) | .user (.thread .dispatch)
  | .user (.instruction _) | .user .flush | .user (.execute _)
  | .deleteAddrSpace _ | .pageFault _ _ => .isTrue trivial

/-- What the thread manager knows depends on the threads and on its own books. -/
theorem Numbered.congr (num : sys.Numbered) (threads : next.user.threads = sys.user.threads)
    (pid : next.user.pid = sys.user.pid) (threadMap : next.threadMap = sys.threadMap)
    (deleted : next.deleted = sys.deleted) : next.Numbered := by
  -- Who is live is the same in both states.
  have live : ∀ thread, next.Live thread ↔ sys.Live thread := by
    intro thread
    unfold Live
    rw [threads, deleted]
  -- Every part speaks of these four only.
  exact ⟨threads ▸ num.threads, threads ▸ num.finishing, (live _).mpr (threads ▸ num.current),
    fun thread dead => ⟨(live thread).mpr (num.carcass thread (threads ▸ dead)).1,
      threads ▸ (num.carcass thread (threads ▸ dead)).2⟩,
    fun thread gone => threads ▸ num.gone thread (deleted ▸ gone), threadMap ▸ num.size,
    by rw [threads, threadMap]; exact num.counted,
    fun thread still => by rw [pid, threadMap]; exact num.numbered thread ((live thread).mp still),
    fun thread other still also same => num.apart thread other ((live thread).mp still)
      ((live other).mp also) (by rwa [pid] at same)⟩

/-- A step of the threads keeps the books of both managers. -/
theorem Numbered.thread_step (num : sys.Numbered) (spaces : sys.Spaces) {event : ThreadEvent}
    (tidy : sys.Tidy (.user (.thread event))) {managed : ProcessSystem} {user : UserSystem}
    (done : sys.manage (.thread event) = some managed)
    (stepped : managed.user.step (.thread event) = some user) :
    Numbered { managed with user } ∧ Spaces { managed with user } := by
  -- The manager runs first, and then the threads, of which neither touches what the other has.
  obtain ⟨sameThreads, sameMachine, sameAsked⟩ := manage_frame done
  obtain ⟨oldPids, -, oldThreads⟩ := manage_known done
  obtain ⟨went, pid, same⟩ := UserSystem.step_thread stepped
  rw [sameThreads] at went
  -- No step takes back a thread that was made.
  have created : sys.user.threads.created ≤ user.threads.created := by
    cases num.threads.counts went with
    | creates _ created => omega
    | refuses _ created => omega
    | resumes _ created => omega
    | goesOn _ created => omega
  refine ⟨num.manage done went pid rfl rfl, spaces.through .refl ?_ ?_⟩
  · -- The thread manager touches no memory, and the threads' step only registers.
    rw [sameMachine] at same
    exact same
  · -- The owner of an address space is still there, and so is its record.
    intro thread space live had
    refine ⟨⟨Nat.lt_of_lt_of_le live.1 created, ?_⟩, congrFun sameAsked thread, ?_⟩
    · -- A thread with an address space is not the carcass.
      change managed.deleted thread = false
      cases gone : managed.deleted thread with
      | false => rfl
      | true =>
        rcases oldThreads thread gone with before | ⟨resume, dead⟩
        · rw [live.2] at before
          cases before
        · cases resume
          -- The carcass has given up its address space by then.
          rw [tidy thread dead] at had
          cases had
    · exact (congrFun pid thread).trans (oldPids thread live.1)

/-- What is asked for a thread becomes its address space, or changes nothing. -/
theorem Numbered.createAddrSpace (num : sys.Numbered) (spaces : sys.Spaces)
    {thread : ThreadNumber} {filename : FileName} {stack : List Byte} {uninitialised : AddrSpace}
    (live : sys.Live thread)
    (tidy : sys.Tidy (.createAddrSpace thread filename stack uninitialised))
    {answer : Option AddrSpace}
    (asked : sys.createAddrSpace thread filename stack uninitialised = some (answer, next)) :
    next.Numbered ∧ next.Spaces := by
  obtain ⟨virt, created, asked⟩ := Option.bind_eq_some_iff.mp asked
  cases asked
  refine ⟨num.congr rfl rfl rfl rfl, ?_⟩
  -- What was asked for before is still recorded.
  have recorded : ∀ other, sys.asked other = true →
      Function.update sys.asked thread true other = true := by
    intro other before
    by_cases same : other = thread
    · rw [same, Function.update_self]
    · rw [Function.update_of_ne same, before]
  obtain ⟨inTable, rfl | ⟨entry, free, built, -, rfl⟩⟩ :=
    VirtMemManager.createAddrSpace_some created
  · -- The table had an entry already, and it was left alone.
    refine ⟨spaces.table, spaces.size, fun pid space held => ?_⟩
    obtain ⟨other, still, before, number⟩ := spaces.owner pid space held
    exact ⟨other, still, recorded other before, number⟩
  · -- The entry was free, and the new space is put in.
    have absent : sys.memory.getAddrSpaceOfThread (sys.user.pid thread) = none := by
      rw [VmKernel.getAddrSpaceOfThread, VirtMemManager.getAddrSpaceOfThread, if_pos inTable, free]
    obtain ⟨contents, opened⟩ := Option.isSome_iff_exists.mp (tidy absent)
    simp only [AddrSpace.new, opened] at built
    split at built
    · cases built
      refine ⟨spaces.table.withEntry inTable absent rfl opened, spaces.size, ?_⟩
      intro pid space held
      have looked := (VirtMemManager.getAddrSpaceOfThread_withEntry inTable _ _).symm.trans held
      split at looked
      · -- The new address space is that of the thread which has just asked.
        rename_i same
        exact ⟨thread, live, Function.update_self _ _ _, same.symm⟩
      · obtain ⟨other, still, before, number⟩ := spaces.owner pid space looked
        exact ⟨other, still, recorded other before, number⟩
    · cases built

/-- A step that is tidy keeps the books of both managers. -/
theorem Numbered.step (num : sys.Numbered) (spaces : sys.Spaces) {event : ProcessEvent}
    (tidy : sys.Tidy event) (stepped : sys.step event = some next) :
    next.Numbered ∧ next.Spaces := by
  -- By cases on the step.
  cases event with
  | user event =>
    -- A step of the threads, or one of the machine that runs the current thread.
    obtain ⟨managed, done, stepped⟩ := Option.bind_eq_some_iff.mp stepped
    obtain ⟨user, went, stepped⟩ := Option.bind_eq_some_iff.mp stepped
    cases stepped
    cases event with
    | thread event => exact num.thread_step spaces tidy done went
    -- Instructions and the flush reach their memory by accesses.
    | instruction | flush | execute =>
      cases done
      obtain ⟨threads, pid, middle, reaches, same⟩ := UserSystem.step_machine (by simp) went
      refine ⟨num.congr threads pid rfl rfl, spaces.through reaches same ?_⟩
      intro thread space live _
      exact ⟨⟨threads ▸ live.1, live.2⟩, rfl, congrFun pid thread⟩
  -- An address space is asked for.
  | createAddrSpace thread filename stack uninitialised =>
    simp only [ProcessSystem.step] at stepped
    split at stepped
    · rename_i allowed
      obtain ⟨⟨answer, after⟩, asked, rfl⟩ := Option.map_eq_some_iff.mp stepped
      exact num.createAddrSpace spaces allowed.2 tidy asked
    · cases stepped
  -- An address space is deleted, whoever asks for it.
  | deleteAddrSpace threadId =>
    simp only [ProcessSystem.step] at stepped
    split at stepped
    · obtain ⟨memory, served, rfl⟩ := Option.map_eq_some_iff.mp stepped
      refine ⟨num.congr rfl rfl rfl rfl, ?_⟩
      have admitted : sys.memory.Admitted (0, .delete threadId) := trivial
      obtain ⟨again, served', table⟩ := spaces.table.step admitted
      rw [served] at served'
      cases served'
      obtain ⟨⟨result, last⟩, gone, rfl⟩ := Option.map_eq_some_iff.mp served
      obtain ⟨⟨virt, phys⟩, deleted, gone⟩ := Option.bind_eq_some_iff.mp gone
      cases gone
      -- The address spaces that are left were there before.
      rcases VirtMemManager.deleteAddrSpace_some deleted with ⟨-, rfl, -⟩ | ⟨entry, -, rfl⟩
      · exact ⟨table, spaces.size, spaces.owner⟩
      · refine ⟨table, spaces.size, fun pid space held => ?_⟩
        have looked := (VirtMemManager.getAddrSpaceOfThread_without _ _ _).symm.trans held
        split at looked
        · cases looked
        · exact spaces.owner pid space looked
    · cases stepped
  -- A page fault is served, which is an access.
  | pageFault now vpn =>
    simp only [ProcessSystem.step] at stepped
    split at stepped
    · obtain ⟨memory, handled, rfl⟩ := Option.map_eq_some_iff.mp stepped
      refine ⟨num.congr rfl rfl rfl rfl,
        spaces.through (VmKernel.Reaches.refl.faulted handled) ⟨rfl, rfl, rfl⟩ ?_⟩
      exact fun thread space live _ => ⟨live, rfl, rfl⟩
    · cases stepped

/-- At the start nobody has an address space. -/
theorem spaces_start (initialValue : Nat → Int) (registers : Nat → Word) (files : UnixFiles)
    (mainMemory : MainMemory) (tlb : TLB) (owners : Nat → PhyMemPageEntry)
    (uninitialised : ThreadNumber → Nat → Word) :
    (start initialValue registers files mainMemory tlb owners uninitialised).Spaces := by
  refine ⟨VmKernel.frameTable_boot files mainMemory tlb owners 0, rfl, fun pid space held => ?_⟩
  have nothing : (none : Option AddrSpace) = some space := (ite_self none).symm.trans held
  cases nothing

/-- The address space was built from the file, and none of its pages is in memory. -/
structure NewFrom (files : UnixFiles) (filename : FileName) (stack : List Byte)
    (space : AddrSpace) : Prop where
  file : space.exeFileId = filename
  size : ∃ contents, files filename = some contents ∧
    space.numPages = AddrSpace.pagesOf (AddrSpace.header contents stack)
  invalid : ∀ vpn < space.numPages, (space.pageTable vpn).valid = false

/-- The first address space that is asked for a thread is a new one, or none at all. -/
def StartsAfresh (sys : ProcessSystem) : ProcessEvent → Prop
  | .createAddrSpace thread filename stack uninitialised =>
    sys.Live thread → sys.asked thread = false → ∀ answer next,
      sys.createAddrSpace thread filename stack uninitialised = some (answer, next) →
      ∀ space ∈ answer, NewFrom sys.memory.files filename stack space
  | _ => True

/-- Once a thread is deleted no frame is recorded for its pid, unless another thread has that. -/
def CleansUp (sys : ProcessSystem) (event : ProcessEvent) : Prop :=
  ∀ next, sys.step event = some next → ∀ thread, next.deleted thread = true →
    (sys.deleted thread = false ∨
      ∀ other, next.Live other → next.user.pid other ≠ next.user.pid thread) →
    ∀ frame < numPhysPages, ¬ next.MarkedFor frame (next.user.pid thread)

/-- In a tidy system a thread has an address space only if it has been asked for. -/
theorem Numbered.startsAfresh (num : sys.Numbered) (spaces : sys.Spaces) {event : ProcessEvent}
    (tidy : sys.Tidy event) : sys.StartsAfresh event := by
  -- By cases on the step: only the first call for a thread makes a claim.
  cases event with
  | user event => trivial
  | deleteAddrSpace threadId => trivial
  | pageFault now vpn => trivial
  | createAddrSpace thread filename stack uninitialised =>
    intro live new answer next asked space returned
    -- The call is made of these pieces.
    obtain ⟨virt, created, asked⟩ := Option.bind_eq_some_iff.mp asked
    cases asked
    have absent : sys.memory.getAddrSpaceOfThread (sys.user.pid thread) = none := by
      cases held : sys.memory.getAddrSpaceOfThread (sys.user.pid thread) with
      | none => rfl
      | some old =>
        -- Its owner has the same pid, and is another thread that is not deleted.
        obtain ⟨other, also, before, same⟩ := spaces.owner _ old held
        obtain rfl := num.apart other thread also live same
        rw [new] at before
        cases before
    obtain ⟨inTable, rfl | ⟨entry, free, built, -, rfl⟩⟩ :=
      VirtMemManager.createAddrSpace_some created
    · -- The entry was there already, against what has been shown.
      rw [VmKernel.getAddrSpaceOfThread, VirtMemManager.getAddrSpaceOfThread, if_pos inTable]
        at absent
      rw [absent] at returned
      cases returned
    · -- The entry is the new one, with the program that was asked for.
      obtain ⟨contents, opened⟩ := Option.isSome_iff_exists.mp (tidy absent)
      have same := (Function.update_self (sys.user.pid thread) (some entry)
        sys.memory.virtMemManager.virtMemTable).symm.trans (Option.mem_def.mp returned)
      cases same
      simp only [AddrSpace.new, opened] at built
      split at built
      · cases built
        exact ⟨rfl, ⟨contents, opened, rfl⟩, fun _ _ => rfl⟩
      · cases built

/-- Nobody has the pid of a thread that has just been deleted. -/
theorem Numbered.pid_freed (num : sys.Numbered) {event : ProcessEvent} {thread : ThreadNumber}
    (stepped : sys.step event = some next) (before : sys.deleted thread = false)
    (gone : next.deleted thread = true) :
    ∀ other, next.Live other → next.user.pid other ≠ next.user.pid thread := by
  -- Other steps than a return from SWITCH delete nobody.
  have quiet : next.deleted = sys.deleted → False := by
    intro same
    rw [same, before] at gone
    cases gone
  cases event with
  | user event =>
    obtain ⟨managed, done, stepped⟩ := Option.bind_eq_some_iff.mp stepped
    obtain ⟨user, went, stepped⟩ := Option.bind_eq_some_iff.mp stepped
    cases stepped
    obtain ⟨oldPids, stillGone, oldThreads⟩ := manage_known done
    -- Only the return from `SWITCH` marks a thread, and it marks the carcass.
    rcases oldThreads thread gone with already | ⟨rfl, dead⟩
    · rw [before] at already
      cases already
    obtain ⟨threads, pid, -⟩ := UserSystem.step_thread went
    rw [(manage_frame done).1] at threads
    have carcass := (num.carcass thread dead).1
    intro other live same
    -- No thread is made in that step.
    have created : user.threads.created = sys.user.threads.created := by
      cases num.threads.counts threads with
      | resumes _ created => exact created
      | goesOn neither => exact absurd rfl neither.2
    -- The other thread was live before the step as well.
    have there : sys.Live other := by
      refine ⟨created ▸ live.1, ?_⟩
      cases also : sys.deleted other with
      | false => rfl
      | true => exact (stillGone other also).symm.trans live.2
    -- Its pid has not changed, nor has that of the carcass.
    have pids : sys.user.pid other = sys.user.pid thread := by
      rw [← oldPids other there.1, ← oldPids thread carcass.1, ← pid]
      exact same
    -- The pids differed before, so this is the deleted thread itself.
    obtain rfl := num.apart other thread there carcass pids
    exact absurd (gone.symm.trans live.2) (by simp)
  -- The other steps mark nobody.
  | createAddrSpace thread filename stack uninitialised =>
    simp only [ProcessSystem.step] at stepped
    split at stepped
    · obtain ⟨⟨answer, after⟩, asked, rfl⟩ := Option.map_eq_some_iff.mp stepped
      obtain ⟨virt, -, asked⟩ := Option.bind_eq_some_iff.mp asked
      cases asked
      exact (quiet rfl).elim
    · cases stepped
  | deleteAddrSpace threadId =>
    simp only [ProcessSystem.step] at stepped
    split at stepped
    · obtain ⟨memory, -, rfl⟩ := Option.map_eq_some_iff.mp stepped
      exact (quiet rfl).elim
    · cases stepped
  | pageFault now vpn =>
    simp only [ProcessSystem.step] at stepped
    split at stepped
    · obtain ⟨memory, -, rfl⟩ := Option.map_eq_some_iff.mp stepped
      exact (quiet rfl).elim
    · cases stepped

/-- In a tidy system a deleted thread leaves no frame behind. -/
theorem Numbered.cleansUp (num : sys.Numbered) (spaces : sys.Spaces) {event : ProcessEvent}
    (tidy : sys.Tidy event) : sys.CleansUp event := by
  intro next stepped thread gone how
  obtain ⟨-, after⟩ := num.step spaces tidy stepped
  exact after.unmarked (how.elim (fun before => num.pid_freed stepped before gone) id)

end ProcessSystem

/--
A new thread gets a new address space, and a thread that is destroyed leaves no frame behind.

This is so in every run in which no thread is destroyed while it has an address space, and in which
the files that address spaces are built from can be opened. The first answer for a thread is null or
new even if its pid was that of a thread which has been destroyed.
-/
theorem newThread_startsAfresh (initialValue : Nat → Int) (registers : Nat → Word)
    (files : UnixFiles) (mainMemory : MainMemory) (tlb : TLB) (owners : Nat → PhyMemPageEntry)
    (uninitialised : ThreadNumber → Nat → Word) (events : List ProcessEvent)
    (tidy : EveryStep ProcessSystem.step ProcessSystem.Tidy
      (.start initialValue registers files mainMemory tlb owners uninitialised) events) :
    EveryStep ProcessSystem.step ProcessSystem.StartsAfresh
      (.start initialValue registers files mainMemory tlb owners uninitialised) events ∧
    EveryStep ProcessSystem.step ProcessSystem.CleansUp
      (.start initialValue registers files mainMemory tlb owners uninitialised) events := by
  -- The books of both managers agree all along the run.
  have kept : ∀ (sys : ProcessSystem) event next, sys.Numbered ∧ sys.Spaces → sys.Tidy event →
      sys.step event = some next → next.Numbered ∧ next.Spaces :=
    fun sys event next books tidy stepped => books.1.step books.2 tidy stepped
  -- At the start the main thread has its pid, and there is no address space.
  have begun : ProcessSystem.Numbered
        (.start initialValue registers files mainMemory tlb owners uninitialised) ∧
      ProcessSystem.Spaces
        (.start initialValue registers files mainMemory tlb owners uninitialised) :=
    ⟨ProcessSystem.numbered_start _ _ _ _ _ _ _, ProcessSystem.spaces_start _ _ _ _ _ _ _⟩
  constructor
  · -- Each half of the claim is read off the books.
    exact EveryStep.of_invariant kept (fun sys event books => books.1.startsAfresh books.2) begun tidy
  · exact EveryStep.of_invariant kept (fun sys event books => books.1.cleansUp books.2) begun tidy

/-- A thread that asks for an address space, has a page brought in, and is destroyed at last. -/
def oneProcess : List ProcessEvent :=
  [.user (.thread .createThread), .user (.thread (.fork 1)), .user (.thread .resume),
    .createAddrSpace 1 [1] [] ⟨0, 0, [], AddrSpace.freshEntry⟩, .pageFault 1 0]

/-- The end of that thread, up to the switch to the main thread. -/
def itsEnd : List ProcessEvent := [.user (.thread .finish), .user (.thread .dispatch)]

/-- A machine on which every file is an object file that is all header. -/
def emptyStart : ProcessSystem :=
  .start (fun _ => 0) (fun _ => 0) (fun _ => some emptyProgram) (fun _ => 0)
    (fun _ _ => ⟨0, 0, true, 0, 0⟩) (fun _ => ⟨0, 0⟩) (fun _ _ => 0)

/-- The thread's address space is deleted before the thread is, and the next thread has its pid. -/
theorem newThread_startsAfresh_deleted :
    (replay ProcessSystem.step emptyStart (oneProcess ++ .deleteAddrSpace 1 :: itsEnd ++
      [.user (.thread .resume), .user (.thread .createThread),
        .createAddrSpace 2 [2] [] ⟨0, 0, [], AddrSpace.freshEntry⟩])).isSome = true ∧
    EveryStep ProcessSystem.step ProcessSystem.StartsAfresh emptyStart
      (oneProcess ++ .deleteAddrSpace 1 :: itsEnd ++
        [.user (.thread .resume), .user (.thread .createThread),
          .createAddrSpace 2 [2] [] ⟨0, 0, [], AddrSpace.freshEntry⟩]) := by
  refine ⟨by decide +kernel, ?_⟩
  exact (newThread_startsAfresh _ _ _ _ _ _ _ _ (by decide +kernel)).1

/--
The next thread with the same pid gets the address space that the destroyed one has left.

The first frame stays marked for the pid, with the page that the destroyed thread had there.
-/
theorem newThread_inherits :
    ¬ EveryStep ProcessSystem.step ProcessSystem.StartsAfresh emptyStart
      (oneProcess ++ itsEnd ++ [.user (.thread .resume), .user (.thread .createThread)] ++
        [.createAddrSpace 2 [2] [] ⟨0, 0, [], AddrSpace.freshEntry⟩]) ∧
    ¬ EveryStep ProcessSystem.step ProcessSystem.CleansUp emptyStart
      (oneProcess ++ itsEnd ++ [.user (.thread .resume)]) := by
  constructor
  · -- A second thread is made, with the pid of the first.
    intro every
    have evaluated : (replay ProcessSystem.step emptyStart (oneProcess ++ itsEnd ++
        [.user (.thread .resume), .user (.thread .createThread)])).map (fun sys =>
          (decide (sys.Live 2), sys.asked 2, (sys.createAddrSpace 2 [2] []
            ⟨0, 0, [], AddrSpace.freshEntry⟩).map fun result => result.1.map (·.exeFileId))) =
        some (true, false, some (some [1])) := by decide +kernel
    obtain ⟨sys, ran, values⟩ := Option.map_eq_some_iff.mp evaluated
    simp only [Prod.mk.injEq, decide_eq_true_eq, Option.map_eq_some_iff] at values
    obtain ⟨live, new, ⟨answer, next⟩, asked, space, returned, file⟩ := values
    -- The answer for the second file is the address space of the first.
    have fresh := every.after ran live new answer next asked space returned
    rw [fresh.file] at file
    exact absurd file (by decide)
  · -- And the frame of the first thread is still marked with its pid.
    intro every
    have evaluated : (replay ProcessSystem.step emptyStart (oneProcess ++ itsEnd)).bind (fun sys =>
          (sys.step (.user (.thread .resume))).map fun next =>
            (sys.deleted 1, next.deleted 1, next.memory.phyMemManager.phyMemoryMap.bit 0,
              (next.memory.phyMemManager.phyMemPageTable 0).mainThreadId, next.user.pid 1)) =
        some (false, true, true, 1, 1) := by decide +kernel
    obtain ⟨sys, ran, evaluated⟩ := Option.bind_eq_some_iff.mp evaluated
    obtain ⟨next, stepped, values⟩ := Option.map_eq_some_iff.mp evaluated
    simp only [Prod.mk.injEq] at values
    obtain ⟨before, gone, taken, owner, pid⟩ := values
    exact every.after ran next stepped 1 gone (.inl before) 0 (by decide)
      ⟨taken, owner.trans pid.symm⟩

end Nachos
