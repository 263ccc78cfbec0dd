import Mathlib.Data.List.Nodup
import Nachos.Proofs.Lib.List
import Nachos.Threads.Scheduler

/-! The states of the threads agree with the queues they are on. -/

namespace Nachos

/-- Each thread is on the one queue that its state says, and nowhere else. -/
structure Consistent (status : ThreadNumber → ThreadStatus) (readyList : List ThreadNumber)
    (queues : Nat → List ThreadNumber) : Prop where
  ready_iff : ∀ thread, thread ∈ readyList ↔ status thread = .ready
  ready_nodup : readyList.Nodup
  queue_nodup : ∀ semaphore, (queues semaphore).Nodup
  blocked : ∀ thread semaphore, thread ∈ queues semaphore → status thread = .blocked
  parked : ∀ thread, status thread = .blocked → ∃ semaphore, thread ∈ queues semaphore
  once : ∀ thread first second, thread ∈ queues first → thread ∈ queues second → first = second

section

variable {status : ThreadNumber → ThreadStatus} {readyList : List ThreadNumber}
  {queues : Nat → List ThreadNumber} {thread : ThreadNumber} {semaphore : Nat}

/-- Whoever is on the queue of a semaphore stays blocked when a thread changes that is not. -/
theorem Consistent.blocked_update (consistent : Consistent status readyList queues)
    (notBlocked : status thread ≠ .blocked) (after : ThreadStatus) (other : ThreadNumber)
    (semaphore : Nat) (member : other ∈ queues semaphore) :
    Function.update status thread after other = .blocked := by
  have before := consistent.blocked other semaphore member
  have different : other ≠ thread := fun same => notBlocked (same ▸ before)
  rw [Function.update_of_ne different, before]

/-- Whoever is blocked has its queue still when a thread changes to a state that is not that. -/
theorem Consistent.parked_update (consistent : Consistent status readyList queues)
    {after : ThreadStatus} (notBlocked : after ≠ .blocked) (other : ThreadNumber)
    (blocked : Function.update status thread after other = .blocked) :
    ∃ semaphore, other ∈ queues semaphore := by
  have different : other ≠ thread := fun same => by
    rw [same, Function.update_self] at blocked
    exact notBlocked blocked
  rw [Function.update_of_ne different] at blocked
  exact consistent.parked other blocked

/-- A thread that is running, done or new goes on the ready list. -/
theorem Consistent.insert (consistent : Consistent status readyList queues)
    (compare : ThreadNumber → ThreadNumber → Int) (thread : ThreadNumber) (notReady : status thread ≠ .ready)
    (notBlocked : status thread ≠ .blocked) :
    Consistent (Function.update status thread .ready) (insertWalk compare thread readyList)
      queues where
  ready_iff other := by
    rw [mem_insertWalk]
    -- The thread is in the list once, since it was not ready before.
    by_cases same : other = thread
    · simp [same]
    · rw [Function.update_of_ne same, consistent.ready_iff other]
      simp [same]
  -- It goes in once, having been in no list before.
  ready_nodup := by
    refine (insertWalk_perm _ _ _).nodup_iff.mpr (List.nodup_cons.mpr ⟨fun member => ?_, ?_⟩)
    · exact notReady ((consistent.ready_iff thread).mp member)
    · exact consistent.ready_nodup
  -- The other parts speak of the semaphores, where nothing changed.
  queue_nodup := consistent.queue_nodup
  blocked := consistent.blocked_update notBlocked .ready
  parked := consistent.parked_update nofun
  once := consistent.once

/-- The front of the ready list is taken off it to run. -/
theorem Consistent.remove {rest : List ThreadNumber}
    (consistent : Consistent status (thread :: rest) queues) (after : ThreadStatus) (notReady : after ≠ .ready)
    (notBlocked : after ≠ .blocked) :
    Consistent (Function.update status thread after) rest queues where
  ready_iff other := by
    obtain ⟨absent, -⟩ := List.nodup_cons.mp consistent.ready_nodup
    -- The thread was in the list once, and so not in the rest.
    by_cases same : other = thread
    · rw [same, Function.update_self]
      exact ⟨fun member => absurd member absent, fun ready => absurd ready notReady⟩
    · rw [Function.update_of_ne same, ← consistent.ready_iff other, List.mem_cons]
      simp [same]
  -- The rest of a list without duplicates has none.
  ready_nodup := (List.nodup_cons.mp consistent.ready_nodup).2
  queue_nodup := consistent.queue_nodup
  -- It was ready, and so not blocked.
  blocked := by
    have ready : status thread = .ready := (consistent.ready_iff thread).mp List.mem_cons_self
    exact consistent.blocked_update (by rw [ready]; exact nofun) after
  parked := consistent.parked_update notBlocked
  once := consistent.once

/-- A thread that is on no queue changes to another state without one. -/
theorem Consistent.elsewhere (consistent : Consistent status readyList queues)
    (after : ThreadStatus) (notReady : status thread ≠ .ready)
    (notBlocked : status thread ≠ .blocked) (stillNotReady : after ≠ .ready)
    (stillNotBlocked : after ≠ .blocked) :
    Consistent (Function.update status thread after) readyList queues where
  ready_iff other := by
    -- The thread is in no queue, neither before nor after.
    by_cases same : other = thread
    · rw [same, Function.update_self]
      exact ⟨fun member => absurd ((consistent.ready_iff thread).mp member) notReady,
        fun ready => absurd ready stillNotReady⟩
    · rw [Function.update_of_ne same]
      exact consistent.ready_iff other
  -- No list has changed.
  ready_nodup := consistent.ready_nodup
  queue_nodup := consistent.queue_nodup
  blocked := consistent.blocked_update notBlocked after
  parked := consistent.parked_update stillNotBlocked
  once := consistent.once

/-- A thread that is on no queue goes to the end of the queue of a semaphore. -/
theorem Consistent.block (consistent : Consistent status readyList queues) (semaphore : Nat)
    (notReady : status thread ≠ .ready) (notBlocked : status thread ≠ .blocked) :
    Consistent (Function.update status thread .blocked) readyList
      (Function.update queues semaphore (queues semaphore ++ [thread])) := by
  -- A thread that is awake waits nowhere.
  have absent : ∀ other, thread ∉ queues other :=
    fun other member => notBlocked (consistent.blocked thread other member)
  -- Where the threads are after the step.
  have member_iff : ∀ other mark, other ∈ Function.update queues semaphore
      (queues semaphore ++ [thread]) mark ↔
        other ∈ queues mark ∨ (mark = semaphore ∧ other = thread) := by
    intro other mark
    by_cases same : mark = semaphore
    · subst same
      simp
    · simp [same]
  refine ⟨fun other => ?_, consistent.ready_nodup, fun mark => ?_, fun other mark member => ?_,
    fun other blocked => ?_, fun other first second one two => ?_⟩
  · -- The caller was not ready, and is not now.
    by_cases same : other = thread
    · rw [same, Function.update_self]
      exact ⟨fun member => absurd ((consistent.ready_iff thread).mp member) notReady,
        fun ready => by cases ready⟩
    · rw [Function.update_of_ne same]
      exact consistent.ready_iff other
  · -- It is in its queue once, since it was in none before.
    by_cases same : mark = semaphore
    · subst same
      rw [Function.update_self]
      simpa [List.nodup_append] using ⟨consistent.queue_nodup mark,
        fun other member same => absent mark (same ▸ member)⟩
    · rw [Function.update_of_ne same]
      exact consistent.queue_nodup mark
  · -- Whoever waits is blocked, the caller included.
    by_cases same : other = thread
    · rw [same, Function.update_self]
    · rw [Function.update_of_ne same]
      rcases (member_iff other mark).mp member with before | ⟨-, new⟩
      · exact consistent.blocked other mark before
      · exact absurd new same
  · -- Whoever is blocked waits somewhere.
    by_cases same : other = thread
    · exact ⟨semaphore, (member_iff other semaphore).mpr (.inr ⟨rfl, same⟩)⟩
    · rw [Function.update_of_ne same] at blocked
      obtain ⟨mark, member⟩ := consistent.parked other blocked
      exact ⟨mark, (member_iff other mark).mpr (.inl member)⟩
  · -- Two queues with one thread in both would both be the one it went to.
    rcases (member_iff other first).mp one with before | ⟨here, new⟩
    · rcases (member_iff other second).mp two with also | ⟨-, new⟩
      · exact consistent.once other first second before also
      · exact absurd before (new ▸ absent first)
    · rcases (member_iff other second).mp two with also | ⟨there, -⟩
      · exact absurd also (new ▸ absent second)
      · rw [here, there]

/-- The front of the queue of a semaphore is taken off it, and is ready. -/
theorem Consistent.wake (consistent : Consistent status readyList queues)
    (compare : ThreadNumber → ThreadNumber → Int) {rest : List ThreadNumber}
    (queue : queues semaphore = thread :: rest) :
    Consistent (Function.update status thread .ready) (insertWalk compare thread readyList)
      (Function.update queues semaphore rest) := by
  -- The front of the queue waits there once, and nowhere else.
  have nodup := consistent.queue_nodup semaphore
  rw [queue] at nodup
  obtain ⟨absent, restNodup⟩ := List.nodup_cons.mp nodup
  have there : thread ∈ queues semaphore := by rw [queue]; exact List.mem_cons_self
  have wasBlocked : status thread = .blocked := consistent.blocked thread semaphore there
  -- Of all that waits, only the thread at the front of this queue has gone.
  have member_iff : ∀ other mark, other ∈ Function.update queues semaphore rest mark ↔
      other ∈ queues mark ∧ other ≠ thread := by
    intro other mark
    by_cases same : mark = semaphore
    · subst same
      rw [Function.update_self, queue, List.mem_cons]
      constructor
      · intro member
        exact ⟨.inr member, fun same => absent (same ▸ member)⟩
      · intro ⟨member, different⟩
        exact member.resolve_left different
    · rw [Function.update_of_ne same]
      refine ⟨fun member => ⟨member, fun front => same ?_⟩, fun both => both.1⟩
      exact consistent.once thread mark semaphore (front ▸ member) there
  refine ⟨fun other => ?_, ?_, fun mark => ?_, fun other mark member => ?_,
    fun other blocked => ?_, fun other first second one two => ?_⟩
  · -- The front goes on the ready list, and was blocked before.
    rw [mem_insertWalk]
    by_cases same : other = thread
    · simp [same]
    · rw [Function.update_of_ne same, consistent.ready_iff other]
      simp [same]
  -- It was blocked, and so not among the ready threads.
  · refine (insertWalk_perm _ _ _).nodup_iff.mpr (List.nodup_cons.mpr ⟨fun member => ?_, ?_⟩)
    · have := (consistent.ready_iff thread).mp member
      rw [wasBlocked] at this
      cases this
    · exact consistent.ready_nodup
  · -- One queue loses its front, and the others are as they were.
    by_cases same : mark = semaphore
    · rw [same, Function.update_self]
      exact restNodup
    · rw [Function.update_of_ne same]
      exact consistent.queue_nodup mark
  · -- The others are still where they waited.
    obtain ⟨before, different⟩ := (member_iff other mark).mp member
    rw [Function.update_of_ne different]
    exact consistent.blocked other mark before
  · -- Whoever is blocked still waits where it did.
    have different : other ≠ thread := fun same => by simp [same] at blocked
    rw [Function.update_of_ne different] at blocked
    obtain ⟨mark, member⟩ := consistent.parked other blocked
    exact ⟨mark, (member_iff other mark).mpr ⟨member, different⟩⟩
  · -- Nobody waits in two queues.
    exact consistent.once other first second ((member_iff other first).mp one).1
      ((member_iff other second).mp two).1

end

/-- The queues of the semaphores. -/
def ThreadSystem.queues (sys : ThreadSystem) (semaphore : Nat) : List ThreadNumber :=
  (sys.semaphores semaphore).queue

/-- What every step of the kernel keeps. -/
structure ThreadSystem.Invariant (sys : ThreadSystem) : Prop where
  sound : sys.aborted = false
  consistent : Consistent sys.status sys.readyList sys.queues
  runs : ∀ thread, sys.status thread = .running ↔
    thread = sys.currentThread ∧ ∀ finishing, sys.phase ≠ .sleeping finishing
  unforked : ∀ thread, sys.forked thread = false ↔ sys.status thread = .justCreated
  fresh : ∀ thread, sys.created ≤ thread → sys.forked thread = false
  destroyed : sys.phase ≠ .resuming → sys.toBeDestroyed = none

/-- The step keeps the invariant, and whoever is done stays so. -/
structure ThreadSystem.Onward (sys next : ThreadSystem) : Prop where
  inv : next.Invariant
  done : ∀ thread, sys.status thread = .zommbie → next.status thread = .zommbie

variable {sys next : ThreadSystem} {thread : ThreadNumber} {semaphore : Nat}

/-- Changing one semaphore changes its queue. -/
theorem ThreadSystem.queues_store (sys : ThreadSystem) (semaphore : Nat)
    (after : Semaphore ThreadNumber) :
    (fun mark => (Function.update sys.semaphores semaphore after mark).queue) =
      Function.update sys.queues semaphore after.queue := by
  funext mark
  by_cases same : mark = semaphore
  · rw [same, Function.update_self, Function.update_self]
  · rw [Function.update_of_ne same, Function.update_of_ne same]
    rfl

/-- A thread that is not on the ready list can be put there. -/
theorem ThreadSystem.readyToRun_eq (absent : thread ∉ sys.readyList) :
    sys.readyToRun thread = { sys.setStatus thread .ready with
      readyList := insertWalk sys.priorityCompare thread sys.readyList } := by
  simp only [readyToRun, sortedInsert, if_neg absent]

/-- The kernel starts with its main thread running. -/
theorem ThreadSystem.invariant_start (initialValue : Nat → Int) :
    (start initialValue).Invariant := by
  -- The main thread runs, and there is no other.
  refine ⟨rfl, ⟨fun thread => ?_, List.nodup_nil, fun _ => List.nodup_nil, fun _ _ member => ?_,
    fun thread blocked => ?_, fun _ _ _ member => ?_⟩, fun thread => ?_, fun thread => ?_,
    fun thread far => ?_, fun _ => rfl⟩
  · by_cases main : thread = 0 <;> simp [start, main]
  · cases member
  · by_cases main : thread = 0 <;> simp [start, main] at blocked
  · cases member
  · by_cases main : thread = 0 <;> simp [start, main]
  · by_cases main : thread = 0 <;> simp [start, main]
  · -- A number that is not made yet is not that of the main thread.
    have main : thread ≠ 0 := fun same => by simp [start, same] at far
    simp [start, main]

/-- Who executes is neither ready nor blocked, nor new, nor done. -/
theorem ThreadSystem.Invariant.current (inv : sys.Invariant)
    (awake : ∀ finishing, sys.phase ≠ .sleeping finishing) :
    sys.status sys.currentThread = .running :=
  (inv.runs sys.currentThread).mpr ⟨rfl, awake⟩

/-- Who executes has been forked. -/
theorem ThreadSystem.Invariant.current_forked (inv : sys.Invariant)
    (awake : ∀ finishing, sys.phase ≠ .sleeping finishing) :
    sys.forked sys.currentThread = true := by
  cases forked : sys.forked sys.currentThread with
  | true => rfl
  | false =>
    have new := (inv.unforked sys.currentThread).mp forked
    rw [inv.current awake] at new
    cases new

/-- `V` with nobody waiting counts up. -/
theorem ThreadSystem.v_nil (queue : (sys.semaphores semaphore).queue = []) :
    sys.v semaphore = { sys with
      semaphores := Function.update sys.semaphores semaphore
        { value := (sys.semaphores semaphore).value + 1, queue := [] } } := by
  simp only [ThreadSystem.v, Semaphore.v, queue]

/-- Whoever waits for a semaphore is asleep, and not on the ready list. -/
theorem ThreadSystem.Invariant.waiting {woken : ThreadNumber} {rest : List ThreadNumber}
    (inv : sys.Invariant) (queue : (sys.semaphores semaphore).queue = woken :: rest) :
    sys.status woken = .blocked ∧ woken ∉ sys.readyList := by
  have blocked : sys.status woken = .blocked :=
    inv.consistent.blocked woken semaphore (by rw [queues, queue]; exact List.mem_cons_self)
  refine ⟨blocked, fun member => ?_⟩
  rw [inv.consistent.ready_iff, blocked] at member
  cases member

/-- `V` with somebody waiting puts the first of them on the ready list. -/
theorem ThreadSystem.Invariant.v_cons {woken : ThreadNumber} {rest : List ThreadNumber}
    (inv : sys.Invariant) (queue : (sys.semaphores semaphore).queue = woken :: rest) :
    sys.v semaphore = { sys.setStatus woken .ready with
      readyList := insertWalk sys.priorityCompare woken sys.readyList
      semaphores := Function.update sys.semaphores semaphore
        { value := (sys.semaphores semaphore).value + 1, queue := rest } } := by
  simp only [ThreadSystem.v, Semaphore.v, queue]
  exact readyToRun_eq (inv.waiting queue).2

/-- `V` changes a semaphore, and where the thread is that it wakes. -/
theorem ThreadSystem.Invariant.v_frame (inv : sys.Invariant) (semaphore : Nat) :
    ∃ semaphores status readyList,
      sys.v semaphore = { sys with semaphores, status, readyList } := by
  cases queue : (sys.semaphores semaphore).queue with
  | nil => exact ⟨_, _, _, v_nil queue⟩
  | cons woken rest => exact ⟨_, _, _, inv.v_cons queue⟩

/-- `V` keeps the invariant, whoever calls it. -/
theorem ThreadSystem.Invariant.v (inv : sys.Invariant) (semaphore : Nat) :
    sys.Onward (sys.v semaphore) := by
  cases queue : (sys.semaphores semaphore).queue with
  | nil =>
    -- Nobody waits, so only the value changes.
    have result := v_nil queue
    have same : (sys.v semaphore).queues = sys.queues := by
      rw [result]
      refine (queues_store _ _ _).trans ?_
      rw [← queue]
      exact Function.update_eq_self semaphore sys.queues
    have consistent := inv.consistent
    rw [← same] at consistent
    rw [result] at consistent ⊢
    exact ⟨⟨inv.sound, consistent, inv.runs, inv.unforked, inv.fresh, inv.destroyed⟩,
      fun _ done => done⟩
  -- Somebody waits, and the front of the queue is made ready.
  | cons woken rest =>
    have blocked := (inv.waiting queue).1
    have result := inv.v_cons queue
    have consistent := inv.consistent.wake sys.priorityCompare queue
    rw [← queues_store sys semaphore
      { value := (sys.semaphores semaphore).value + 1, queue := rest }] at consistent
    rw [result]
    refine ⟨⟨inv.sound, consistent, fun thread => ?_, fun thread => ?_, inv.fresh, inv.destroyed⟩,
      fun thread done => ?_⟩
    · -- The woken thread does not run, and the others are as they were.
      by_cases same : thread = woken
      · subst same
        have := (inv.runs thread).not.mp (by simp [blocked])
        simpa [setStatus] using this
      · simpa [setStatus, same] using inv.runs thread
    · -- It was forked long ago.
      by_cases same : thread = woken
      · subst same
        have := (inv.unforked thread).not.mpr (by simp [blocked])
        simpa [setStatus] using this
      · simpa [setStatus, same] using inv.unforked thread
    · -- It was blocked, so it was not done.
      have different : thread ≠ woken := fun same => by
        rw [same, blocked] at done
        cases done
      simpa [setStatus, different] using done

/-- Nothing done is a step onward. -/
theorem ThreadSystem.Onward.refl (inv : sys.Invariant) : sys.Onward sys := ⟨inv, fun _ => id⟩

/-- Steps onward go on. -/
theorem ThreadSystem.Onward.trans {middle : ThreadSystem} (one : sys.Onward middle)
    (two : middle.Onward next) : sys.Onward next :=
  ⟨two.inv, fun thread done => two.done thread (one.done thread done)⟩

/-- The test in `P` of a semaphore at zero puts the caller to sleep. -/
theorem ThreadSystem.p_zero (zero : (sys.semaphores semaphore).value = 0) :
    sys.p semaphore = { sys.setStatus sys.currentThread .blocked with
      semaphores := Function.update sys.semaphores semaphore { sys.semaphores semaphore with
        queue := (sys.semaphores semaphore).queue ++ [sys.currentThread] }
      continuation := Function.update sys.continuation sys.currentThread (.tests semaphore)
      phase := .sleeping false } := by
  simp only [ThreadSystem.p, Semaphore.test, if_pos zero]

/-- The test in `P` of any other semaphore takes a unit. -/
theorem ThreadSystem.p_pos (positive : (sys.semaphores semaphore).value ≠ 0) :
    sys.p semaphore = { sys with
      semaphores := Function.update sys.semaphores semaphore { sys.semaphores semaphore with
        value := (sys.semaphores semaphore).value - 1 }
      phase := .executing } := by
  simp only [ThreadSystem.p, Semaphore.test, if_neg positive]

/-- The test in `P` keeps the invariant, whether it takes a unit or puts the thread to sleep. -/
theorem ThreadSystem.Invariant.p (inv : sys.Invariant)
    (awake : ∀ finishing, sys.phase ≠ .sleeping finishing) (clean : sys.toBeDestroyed = none)
    (semaphore : Nat) : sys.Onward (sys.p semaphore) := by
  have current := inv.current awake
  by_cases zero : (sys.semaphores semaphore).value = 0
  · -- No unit is free: the caller blocks.
    have result := p_zero zero
    have consistent := inv.consistent.block semaphore
      (show sys.status sys.currentThread ≠ .ready by simp [current]) (by simp [current])
    change Consistent _ _ (Function.update _ _ ({ sys.semaphores semaphore with
      queue := (sys.semaphores semaphore).queue ++ [sys.currentThread] } :
        Semaphore ThreadNumber).queue) at consistent
    rw [← queues_store] at consistent
    rw [result]
    refine ⟨⟨inv.sound, consistent, fun thread => ?_, fun thread => ?_, inv.fresh, fun _ => clean⟩,
      fun thread done => ?_⟩
    · -- Nobody runs until the loop of Sleep finds somebody.
      by_cases caller : thread = sys.currentThread
      · simp [setStatus, caller]
      · have before := inv.runs thread
        simp [setStatus, caller, before]
    · -- The caller was forked, since it runs.
      by_cases caller : thread = sys.currentThread
      · simp [setStatus, caller, inv.unforked, current]
      · simpa [setStatus, caller] using inv.unforked thread
    · -- Nobody who was done runs.
      have notCaller : thread ≠ sys.currentThread := fun same => by simp [same, current] at done
      simpa [setStatus, notCaller] using done
  · -- A unit is free: the caller takes it and goes on.
    have result := p_pos zero
    have same : (sys.p semaphore).queues = sys.queues := by
      rw [result]
      exact (queues_store _ _ _).trans (Function.update_eq_self semaphore sys.queues)
    have consistent := inv.consistent
    rw [← same] at consistent
    rw [result] at consistent ⊢
    refine ⟨⟨inv.sound, consistent, fun thread => ?_, inv.unforked, inv.fresh, fun _ => clean⟩,
      fun _ => id⟩
    -- The caller still executes.
    rw [inv.runs thread]
    simp [awake]

/-- `Yield` has nothing to do when nobody else is ready. -/
theorem ThreadSystem.yield_nil (readyList : sys.readyList = []) : sys.yield = sys := by
  simp only [ThreadSystem.yield, readyList]

/-- The caller of `Yield` is not the front of the ready list, and not behind it. -/
theorem ThreadSystem.Invariant.apart {nextThread : ThreadNumber} {rest : List ThreadNumber}
    (inv : sys.Invariant) (executing : sys.phase = .executing)
    (readyList : sys.readyList = nextThread :: rest) :
    sys.currentThread ≠ nextThread ∧ sys.currentThread ∉ rest := by
  have current := inv.current (by simp [executing])
  have absent : sys.currentThread ∉ nextThread :: rest := fun member => by
    rw [← readyList, inv.consistent.ready_iff, current] at member
    cases member
  exact ⟨fun same => absent (same ▸ List.mem_cons_self),
    fun member => absent (List.mem_cons_of_mem _ member)⟩

/-- Otherwise the caller of `Yield` changes places with the front of the ready list. -/
theorem ThreadSystem.Invariant.yield_cons {nextThread : ThreadNumber} {rest : List ThreadNumber}
    (inv : sys.Invariant) (executing : sys.phase = .executing)
    (readyList : sys.readyList = nextThread :: rest) :
    sys.yield = { sys with
      status := Function.update (Function.update sys.status sys.currentThread .ready)
        nextThread .running
      readyList := insertWalk sys.priorityCompare sys.currentThread rest
      continuation := Function.update sys.continuation sys.currentThread .yields
      currentThread := nextThread
      phase := .resuming } := by
  -- The caller is put on the list, with an assertion that it is not there.
  simp only [ThreadSystem.yield, readyList]
  rw [readyToRun_eq (inv.apart executing readyList).2]
  rfl

/-- `Yield` keeps the invariant. -/
theorem ThreadSystem.Invariant.yield (inv : sys.Invariant) (executing : sys.phase = .executing) :
    sys.Onward sys.yield := by
  have awake : ∀ finishing, sys.phase ≠ .sleeping finishing := by simp [executing]
  have current := inv.current awake
  cases readyList : sys.readyList with
  | nil =>
    -- Nobody is ready, and `Yield` does nothing.
    rw [yield_nil readyList]
    exact .refl inv
  -- Somebody is ready, and gets the processor.
  | cons nextThread rest =>
    have ready : sys.status nextThread = .ready :=
      (inv.consistent.ready_iff nextThread).mp (by simp [readyList])
    have different := (inv.apart executing readyList).1
    have result := inv.yield_cons executing readyList
    -- First the front is taken off the list to run, then the caller goes on it.
    have consistent := inv.consistent
    rw [readyList] at consistent
    have removed := consistent.remove .running (by simp) (by simp)
    have inserted := removed.insert sys.priorityCompare sys.currentThread
      (by simp [different, current]) (by simp [different, current])
    rw [Function.update_comm different.symm] at inserted
    rw [result]
    refine ⟨⟨inv.sound, inserted, fun thread => ?_, fun thread => ?_, inv.fresh,
      fun notResuming => absurd rfl notResuming⟩, fun thread done => ?_⟩
    · -- The next thread runs now, and the caller does not.
      by_cases next : thread = nextThread
      · simp [next]
      · have before := inv.runs thread
        by_cases caller : thread = sys.currentThread
        · simp [caller, different]
        · simp [next, caller, before]
    · -- Both were forked.
      by_cases next : thread = nextThread
      · simp [next, inv.unforked, ready]
      · by_cases caller : thread = sys.currentThread
        · simp [caller, different, inv.unforked, current]
        · simpa [next, caller] using inv.unforked thread
    · -- Neither of the two is done.
      have notNext : thread ≠ nextThread := fun same => by simp [same, ready] at done
      have notCaller : thread ≠ sys.currentThread := fun same => by simp [same, current] at done
      simpa [notNext, notCaller] using done

/-- A new thread is put on the ready list. -/
theorem ThreadSystem.Invariant.started_eq (inv : sys.Invariant)
    (unforked : sys.forked thread = false) :
    sys.started thread = { sys.setStatus thread .ready with
      forked := Function.update sys.forked thread true
      continuation := Function.update sys.continuation thread .begins
      readyList := insertWalk sys.priorityCompare thread sys.readyList } := by
  -- The assertion holds: a new thread is not ready yet.
  have new : sys.status thread = .justCreated := (inv.unforked thread).mp unforked
  have absent : thread ∉ sys.readyList := fun member => by
    rw [inv.consistent.ready_iff, new] at member
    cases member
  unfold started
  rw [readyToRun_eq (by exact absent)]
  rfl

/-- Putting a new thread on the ready list keeps the invariant. -/
theorem ThreadSystem.Invariant.started (inv : sys.Invariant) (created : thread < sys.created)
    (unforked : sys.forked thread = false) : sys.Onward (sys.started thread) := by
  have new : sys.status thread = .justCreated := (inv.unforked thread).mp unforked
  have inserted := inv.consistent.insert sys.priorityCompare thread (by simp [new])
    (by simp [new])
  rw [inv.started_eq unforked]
  refine ⟨⟨inv.sound, inserted, fun other => ?_, fun other => ?_, fun other far => ?_,
    inv.destroyed⟩, fun other done => ?_⟩
  · -- It does not run yet.
    by_cases same : other = thread
    · have := (inv.runs thread).not.mp (by simp [new])
      simpa [setStatus, same] using this
    · simpa [setStatus, same] using inv.runs other
  · -- It is marked as forked now.
    by_cases same : other = thread
    · simp [setStatus, same]
    · simpa [setStatus, same] using inv.unforked other
  · -- It is not one of those not made yet.
    have beyond : sys.created ≤ other := far
    have different : other ≠ thread := Nat.ne_of_gt (Nat.lt_of_lt_of_le created beyond)
    simpa [setStatus, different] using inv.fresh other far
  · -- It was new, and so not done.
    have different : other ≠ thread := fun same => by simp [same, new] at done
    simpa [setStatus, different] using done

/-- `Fork` keeps the invariant: the new thread is ready before its creator yields. -/
theorem ThreadSystem.Invariant.fork (inv : sys.Invariant) (executing : sys.phase = .executing)
    (created : thread < sys.created) (unforked : sys.forked thread = false) :
    sys.Onward (sys.fork thread) := by
  have ready := inv.started created unforked
  refine ready.trans (ready.inv.yield ?_)
  rw [inv.started_eq unforked]
  exact executing

/-- `Finish` keeps the invariant: the caller is done, and on no queue. -/
theorem ThreadSystem.Invariant.finish (inv : sys.Invariant) (executing : sys.phase = .executing) :
    sys.Onward sys.finish := by
  have current := inv.current (by simp [executing])
  -- The caller was running, so it is in no queue.
  have consistent := inv.consistent.elsewhere .zommbie
    (show sys.status sys.currentThread ≠ .ready by simp [current]) (by simp [current]) (by simp)
    (by simp)
  refine ⟨⟨inv.sound, consistent, fun thread => ?_, fun thread => ?_, inv.fresh,
    fun _ => inv.destroyed (by simp [executing])⟩, fun thread done => ?_⟩
  · -- The caller does not run any more.
    by_cases caller : thread = sys.currentThread
    · simp [ThreadSystem.finish, setStatus, caller]
    · have before := inv.runs thread
      simp [ThreadSystem.finish, setStatus, caller, before]
  · -- The caller was forked.
    by_cases caller : thread = sys.currentThread
    · simp [ThreadSystem.finish, setStatus, caller, inv.unforked, current]
    · simpa [ThreadSystem.finish, setStatus, caller] using inv.unforked thread
  · -- It is done now, and whoever was done is still.
    by_cases caller : thread = sys.currentThread
    · simp [ThreadSystem.finish, setStatus, caller]
    · simpa [ThreadSystem.finish, setStatus, caller] using done

/-- `Run` dispatches when there is no carcass left. -/
theorem ThreadSystem.run_eq (clean : sys.toBeDestroyed = none) (nextThread : ThreadNumber)
    (finishing : Bool) :
    sys.run nextThread finishing = { sys.setStatus nextThread .running with
      toBeDestroyed := if finishing then some sys.currentThread else none
      currentThread := nextThread
      phase := .resuming } := by
  unfold run
  rw [if_neg (by simp [clean]), clean]

/-- The dispatch at the end of `Sleep` keeps the invariant, also of a thread to itself. -/
theorem ThreadSystem.Invariant.dispatch {finishing : Bool} {nextThread : ThreadNumber}
    {rest : List ThreadNumber} (inv : sys.Invariant) (sleeping : sys.phase = .sleeping finishing)
    (readyList : sys.readyList = nextThread :: rest) :
    sys.Onward ({ sys with readyList := rest }.run nextThread finishing) := by
  have clean : sys.toBeDestroyed = none := inv.destroyed (by simp [sleeping])
  have ready : sys.status nextThread = .ready :=
    (inv.consistent.ready_iff nextThread).mp (by simp [readyList])
  -- Whoever called has gone to sleep, so that nobody runs.
  have nobody : ∀ thread, sys.status thread ≠ .running := fun thread => by
    simp [inv.runs, sleeping]
  have consistent := inv.consistent
  rw [readyList] at consistent
  have removed := consistent.remove .running (by simp) (by simp)
  rw [run_eq (by exact clean)]
  refine ⟨⟨inv.sound, removed, fun thread => ?_, fun thread => ?_, inv.fresh,
    fun notResuming => absurd rfl notResuming⟩, fun thread done => ?_⟩
  · -- The next thread runs, and it is the only one.
    by_cases next : thread = nextThread
    · simp [setStatus, next]
    · simp [setStatus, next, nobody]
  · -- It was forked, having been ready.
    by_cases next : thread = nextThread
    · simp [setStatus, next, inv.unforked, ready]
    · simpa [setStatus, next] using inv.unforked thread
  · -- It was ready, and so not done.
    have notNext : thread ≠ nextThread := fun same => by simp [same, ready] at done
    simpa [setStatus, notNext] using done

/-- Deleting the carcass changes the number of threads alone. -/
theorem ThreadSystem.checkToBeDestroyed_frame (sys : ThreadSystem) : ∃ threadCnt,
    sys.checkToBeDestroyed = { sys with threadCnt, toBeDestroyed := none } := by
  unfold checkToBeDestroyed
  split
  · rename_i clean
    exact ⟨sys.threadCnt, by rw [← clean]⟩
  · exact ⟨_, rfl⟩

/-- The carcass is deleted before anyone else can finish. -/
theorem ThreadSystem.checkToBeDestroyed_clean (sys : ThreadSystem) :
    sys.checkToBeDestroyed.toBeDestroyed = none := by
  obtain ⟨threadCnt, cleaned⟩ := sys.checkToBeDestroyed_frame
  rw [cleaned]

/-- Deleting the carcass keeps the invariant. -/
theorem ThreadSystem.Invariant.checkToBeDestroyed (inv : sys.Invariant) :
    sys.Onward sys.checkToBeDestroyed ∧ sys.checkToBeDestroyed.phase = sys.phase := by
  obtain ⟨threadCnt, cleaned⟩ := sys.checkToBeDestroyed_frame
  rw [cleaned]
  exact ⟨⟨⟨inv.sound, inv.consistent, inv.runs, inv.unforked, inv.fresh, fun _ => rfl⟩,
    fun _ => id⟩, rfl⟩

/-- After `SWITCH` the carcass is deleted, and the thread goes on or tests its semaphore again. -/
theorem ThreadSystem.resume_cases (sys : ThreadSystem) :
    ((∀ semaphore, sys.continuation sys.currentThread ≠ .tests semaphore) ∧
      sys.resume = { sys.checkToBeDestroyed with phase := .executing }) ∨
    ∃ semaphore, sys.continuation sys.currentThread = .tests semaphore ∧
      sys.resume = sys.checkToBeDestroyed.p semaphore := by
  -- Deleting the carcass changes the count and nothing else.
  obtain ⟨threadCnt, cleaned⟩ := sys.checkToBeDestroyed_frame
  unfold resume
  rw [cleaned]
  dsimp only
  -- The continuation says which of the two it is.
  cases sys.continuation sys.currentThread with
  | begins => exact .inl ⟨by simp, rfl⟩
  | yields => exact .inl ⟨by simp, rfl⟩
  | tests semaphore => exact .inr ⟨semaphore, rfl, rfl⟩

/-- What a thread does after `SWITCH` keeps the invariant. -/
theorem ThreadSystem.Invariant.resume (inv : sys.Invariant) (resuming : sys.phase = .resuming) :
    sys.Onward sys.resume := by
  -- The carcass is gone, and then the thread goes on.
  obtain ⟨cleaned, phase⟩ := inv.checkToBeDestroyed
  have clean := sys.checkToBeDestroyed_clean
  have awake : ∀ finishing, sys.checkToBeDestroyed.phase ≠ .sleeping finishing := by
    simp [phase, resuming]
  refine cleaned.trans ?_
  have goesOn : sys.checkToBeDestroyed.Onward
      { sys.checkToBeDestroyed with phase := .executing } := by
    refine ⟨⟨cleaned.inv.sound, cleaned.inv.consistent, fun thread => ?_, cleaned.inv.unforked,
      cleaned.inv.fresh, fun _ => clean⟩, fun _ => id⟩
    rw [cleaned.inv.runs thread]
    simp [awake]
  -- The thread goes on with what it did, or tests its semaphore again.
  rcases sys.resume_cases with ⟨-, result⟩ | ⟨semaphore, -, result⟩
  · rw [result]
    exact goesOn
  · rw [result]
    exact cleaned.inv.p awake clean semaphore

/-- What a step does: one case for each event that is possible in a phase. -/
inductive ThreadSystem.Steps (sys : ThreadSystem) : ThreadEvent → ThreadSystem → Prop
  | creates (executing : sys.phase = .executing) : Steps sys .createThread sys.createThread
  | orders (executing : sys.phase = .executing) (thread : ThreadNumber) (priority : Int) :
    Steps sys (.setPriority thread priority)
      { sys with priority := Function.update sys.priority thread priority }
  | forks (executing : sys.phase = .executing) (thread : ThreadNumber)
    (created : thread < sys.created) (unforked : sys.forked thread = false) :
    Steps sys (.fork thread) (sys.started thread).yield
  | yields (executing : sys.phase = .executing) : Steps sys .yield sys.yield
  | tests (executing : sys.phase = .executing) (semaphore : Nat) :
    Steps sys (.p semaphore) (sys.p semaphore)
  -- V is called by a thread, or by an interrupt handler.
  | wakes {event : ThreadEvent} (semaphore : Nat)
    (calls : event = .v semaphore ∨ event = .interrupt semaphore)
    (awake : sys.phase ≠ .resuming) : Steps sys event (sys.v semaphore)
  | finishes (executing : sys.phase = .executing) : Steps sys .finish sys.finish
  | dispatches (finishing : Bool) (nextThread : ThreadNumber) (rest : List ThreadNumber)
    (sleeping : sys.phase = .sleeping finishing) (readyList : sys.readyList = nextThread :: rest) :
    Steps sys .dispatch ({ sys with readyList := rest }.run nextThread finishing)
  | resumes (resuming : sys.phase = .resuming) : Steps sys .resume sys.resume

/-- Every step is one of these. -/
theorem ThreadSystem.step_cases {event : ThreadEvent} (stepped : sys.step event = some next) :
    sys.Steps event next := by
  -- After a failed assertion there is no step.
  unfold ThreadSystem.step at stepped
  split at stepped
  · cases stepped
  -- The cases are those of the definition: what is executing, and which event.
  split at stepped
  -- One case after the other, in the order of the definition.
  case h_1 phase =>
    cases stepped
    exact .creates phase
  case h_2 phase =>
    cases stepped
    exact .orders phase _ _
  case h_3 phase =>
    rw [Option.ite_none_right_eq_some, Option.some.injEq] at stepped
    obtain ⟨⟨created, unforked⟩, rfl⟩ := stepped
    exact .forks phase _ created unforked
  case h_4 phase =>
    cases stepped
    exact .yields phase
  case h_5 phase =>
    cases stepped
    exact .tests phase _
  case h_6 phase =>
    cases stepped
    exact .wakes _ (.inl rfl) (by simp [phase])
  case h_7 phase =>
    cases stepped
    exact .finishes phase
  case h_8 phase | h_9 phase =>
    cases stepped
    exact .wakes _ (.inr rfl) (by simp [phase])
  -- The front of the ready list is dispatched, and there has to be one.
  case h_10 phase =>
    split at stepped
    · cases stepped
    · rename_i readyList
      cases stepped
      exact .dispatches _ _ _ phase readyList
  case h_11 phase =>
    cases stepped
    exact .resumes phase
  case h_12 => cases stepped

/-- Every step of the kernel keeps the invariant, and whoever is done stays so. -/
theorem ThreadSystem.Invariant.step {event : ThreadEvent} (inv : sys.Invariant)
    (stepped : sys.step event = some next) : sys.Onward next := by
  -- One lemma for each thing that a step can do.
  cases ThreadSystem.step_cases stepped with
  -- A thread is made, if there is room for one.
  | creates =>
    unfold createThread
    split
    · exact ⟨⟨inv.sound, inv.consistent, inv.runs, inv.unforked,
        fun thread far => inv.fresh thread (Nat.le_of_succ_le far), inv.destroyed⟩, fun _ => id⟩
    · exact .refl inv
  -- Setting a priority changes no list.
  | orders =>
    exact ⟨⟨inv.sound, inv.consistent, inv.runs, inv.unforked, inv.fresh, inv.destroyed⟩,
      fun _ => id⟩
  -- A new thread becomes ready.
  | forks executing thread created unforked => exact inv.fork executing created unforked
  -- The running thread goes to the end, and the front runs.
  | yields executing => exact inv.yield executing
  -- The running thread takes a unit, or sleeps.
  | tests executing =>
    exact inv.p (by simp [executing]) (inv.destroyed (by simp [executing])) _
  -- A thread that sleeps becomes ready.
  | wakes => exact inv.v _
  -- The running thread is done.
  | finishes executing => exact inv.finish executing
  -- The front of the list runs.
  | dispatches finishing nextThread rest sleeping readyList =>
    exact inv.dispatch sleeping readyList
  -- It deletes the thread that is done.
  | resumes resuming => exact inv.resume resuming

/-- Along a run the invariant holds, and whoever is done stays so. -/
theorem ThreadSystem.Invariant.run (events : List ThreadEvent) :
    ∀ {sys next : ThreadSystem}, sys.Invariant → replay ThreadSystem.step sys events = some next →
      sys.Onward next := by
  -- By induction on the run.
  induction events with
  | nil =>
    intro sys next inv ran
    cases ran
    exact .refl inv
  | cons event rest ih =>
    intro sys next inv ran
    obtain ⟨middle, stepped, ran⟩ := Option.bind_eq_some_iff.mp ran
    have onward := inv.step stepped
    exact onward.trans (ih onward.inv ran)

/--
The states of the threads agree with the queues, in every run of the kernel.

While a thread executes its own code it is the one running thread, the ready threads are those on
the ready list, and each blocked thread is on one queue of a semaphore, once. A finished thread is
on no queue, and is never dispatched again. No insertion finds its thread on the list already.
-/
theorem threadStates_agree (initialValue : Nat → Int) (events : List ThreadEvent)
    (sys : ThreadSystem)
    (reached : replay ThreadSystem.step (.start initialValue) events = some sys) :
    (sys.phase = .executing →
      (∀ thread, sys.status thread = .running ↔ thread = sys.currentThread) ∧
      (∀ thread, sys.readyList.count thread = if sys.status thread = .ready then 1 else 0) ∧
      (∀ thread, sys.status thread = .blocked → ∃ semaphore, ∀ other,
        (sys.semaphores other).queue.count thread = if other = semaphore then 1 else 0) ∧
      (∀ thread, sys.status thread ≠ .blocked → ∀ semaphore,
        (sys.semaphores semaphore).queue.count thread = 0)) ∧
    (∀ thread, sys.status thread = .zommbie →
      ∀ later after, replay ThreadSystem.step sys later = some after →
        after.status thread = .zommbie ∧
        ((∀ finishing, after.phase ≠ .sleeping finishing) → after.currentThread ≠ thread)) ∧
    sys.aborted = false := by
  have inv : sys.Invariant :=
    (ThreadSystem.Invariant.run events (ThreadSystem.invariant_start initialValue) reached).inv
  refine ⟨fun executing => ⟨fun thread => ?_, fun thread => ?_, fun thread blocked => ?_,
    fun thread notBlocked semaphore => ?_⟩, fun thread done later after ran => ?_, inv.sound⟩
  · -- Exactly the current thread runs.
    simp [inv.runs, executing]
  · -- A ready thread is on the list once, and the others are not on it.
    split
    · rename_i ready
      exact List.count_eq_one_of_mem inv.consistent.ready_nodup
        ((inv.consistent.ready_iff thread).mpr ready)
    · rename_i notReady
      exact List.count_eq_zero.mpr fun member =>
        notReady ((inv.consistent.ready_iff thread).mp member)
  · -- A blocked thread is in one queue, once.
    obtain ⟨semaphore, there⟩ := inv.consistent.parked thread blocked
    refine ⟨semaphore, fun other => ?_⟩
    split
    · rename_i same
      exact List.count_eq_one_of_mem (inv.consistent.queue_nodup other) (same ▸ there)
    · rename_i different
      exact List.count_eq_zero.mpr fun member =>
        different (inv.consistent.once thread other semaphore member there)
  · -- A thread that is not blocked is in no queue.
    exact List.count_eq_zero.mpr fun member =>
      notBlocked (inv.consistent.blocked thread semaphore member)
  -- A thread that has finished keeps its status, and one that runs has another.
  · obtain ⟨invAfter, stays⟩ := inv.run later ran
    refine ⟨stays thread done, fun awake same => ?_⟩
    have current := invAfter.current awake
    rw [same, stays thread done] at current
    cases current

/-- A thread that sleeps in `P`, alone with the idle processor, is woken there and goes on. -/
theorem threadStates_agree_idle :
    ∃ sys, replay ThreadSystem.step (.start fun _ => 0)
        [.p 3, .interrupt 3, .dispatch, .resume] = some sys ∧
      sys.phase = .executing ∧ sys.status 0 = .running ∧ sys.aborted = false := by
  refine ⟨_, rfl, rfl, rfl, ?_⟩
  exact (threadStates_agree (fun _ => 0) [.p 3, .interrupt 3, .dispatch, .resume] _ rfl).2.2

end Nachos
