import Nachos.Proofs.Threads.Scheduler
import Nachos.Proofs.Threads.Semaphore

/-! Each semaphore of the kernel is the semaphore that is studied by itself, scheduler and all. -/

namespace Nachos

variable {sys next : ThreadSystem} {thread : ThreadNumber} {semaphore other : Nat}

namespace ThreadSystem

/-- The thread is inside `P` of the semaphore: asleep there, or it tests the value when back. -/
def Tests (sys : ThreadSystem) (semaphore : Nat) (thread : ThreadNumber) : Prop :=
  sys.continuation thread = .tests semaphore ∧
    sys.status thread ≠ .justCreated ∧ sys.status thread ≠ .zommbie ∧
    ¬ (thread = sys.currentThread ∧ sys.phase = .executing)

/-- Whoever is on the queue of a semaphore sleeps in its `P`. -/
def Parks (sys : ThreadSystem) : Prop :=
  ∀ thread semaphore, thread ∈ sys.queues semaphore → sys.continuation thread = .tests semaphore

/-- The semaphore by itself, among the first threads, is as the kernel has it. -/
structure Represents (semaphore : Nat) (sys : ThreadSystem) {n : Nat}
    (single : SemaphoreSystem (Fin n)) : Prop where
  value : single.sem.value = (sys.semaphores semaphore).value
  queue : single.sem.queue.map Fin.val = (sys.semaphores semaphore).queue
  status : ∀ thread : Fin n, single.status thread = sys.status thread
  insideP : ∀ thread : Fin n, single.insideP thread = true ↔ sys.Tests semaphore thread

/-- The semaphore by itself can follow the kernel, and counts the calls of `V` on the way. -/
def Follows (semaphore n : Nat) (sys : ThreadSystem) (calls : Nat) (next : ThreadSystem) : Prop :=
  ∀ single : SemaphoreSystem (Fin n), Represents semaphore sys single →
    ∃ moves after, replay SemaphoreSystem.step single moves = some after ∧
      Represents semaphore next after ∧ after.vCalls = single.vCalls + calls

end ThreadSystem

/-- A change of one thread is the same change among the first threads. -/
theorem update_val {Value : Type} {n : Nat} {few : Fin n → Value} {all : Nat → Value}
    (same : ∀ thread, few thread = all thread) (thread : Fin n) (value : Value) (other : Fin n) :
    Function.update few thread value other = Function.update all thread value other := by
  by_cases here : other = thread
  · rw [here, Function.update_self, Function.update_self]
  · have apart : (other : Nat) ≠ thread := fun equal => here (Fin.ext equal)
    rw [Function.update_of_ne here, Function.update_of_ne apart, same]

namespace ThreadSystem

variable {n calls : Nat}

/-- A thread whose continuation and status stay alike stays inside `P`, or outside it. -/
theorem tests_iff (continuation : next.continuation thread = sys.continuation thread)
    (status : next.status thread = sys.status thread)
    (current : (thread = next.currentThread ∧ next.phase = .executing) ↔
      (thread = sys.currentThread ∧ sys.phase = .executing)) :
    next.Tests semaphore thread ↔ sys.Tests semaphore thread := by
  unfold Tests
  rw [continuation, status, current]

/-- Nothing that the semaphore knows of has changed. -/
theorem Follows.unchanged (semaphores : next.semaphores semaphore = sys.semaphores semaphore)
    (status : next.status = sys.status)
    (inside : ∀ thread, next.Tests semaphore thread ↔ sys.Tests semaphore thread) :
    sys.Follows semaphore n 0 next := by
  intro single represents
  refine ⟨[], single, rfl, ⟨?_, ?_, ?_, ?_⟩, rfl⟩
  · rw [semaphores, represents.value]
  · rw [semaphores, represents.queue]
  · exact fun thread => by rw [status, represents.status]
  · exact fun thread => (represents.insideP thread).trans (inside thread).symm

/-- What the semaphore follows in two parts it follows. -/
theorem Follows.trans {middle : ThreadSystem} (one : sys.Follows semaphore n calls middle)
    (two : middle.Follows semaphore n 0 next) : sys.Follows semaphore n calls next := by
  intro single represents
  obtain ⟨moves, between, went, represents, counted⟩ := one single represents
  obtain ⟨later, after, goesOn, represents, also⟩ := two between represents
  refine ⟨moves ++ later, after, by rw [replay_append went, goesOn], represents, ?_⟩
  rw [also, counted, Nat.add_zero]

/-- The rest of the kernel changes a thread that is not asleep here, nor goes to sleep. -/
theorem Follows.elsewhere {status : ThreadStatus} (within : thread < n)
    (semaphores : next.semaphores semaphore = sys.semaphores semaphore)
    (changed : next.status = Function.update sys.status thread status)
    (awake : ¬ (sys.Tests semaphore thread ∧ sys.status thread = .blocked))
    (stays : ¬ (sys.Tests semaphore thread ∧ status = .blocked))
    (inside : ∀ other, next.Tests semaphore other ↔ sys.Tests semaphore other) :
    sys.Follows semaphore n 0 next := by
  intro single represents
  -- The event of the semaphore is possible, since the thread is not blocked in its P.
  have unblocked : ¬ (single.Blocked ⟨thread, within⟩ ∨
      (single.insideP ⟨thread, within⟩ = true ∧ status = .blocked)) := by
    rintro (⟨tests, blocked⟩ | ⟨tests, blocked⟩)
    · rw [represents.status] at blocked
      exact awake ⟨(represents.insideP _).mp tests, blocked⟩
    · exact stays ⟨(represents.insideP _).mp tests, blocked⟩
  have stepped : single.step (.elsewhere ⟨thread, within⟩ status) = some { single with
      status := Function.update single.status ⟨thread, within⟩ status } := if_neg unblocked
  -- The semaphore by itself takes one step, in which only the status changes.
  refine ⟨[.elsewhere ⟨thread, within⟩ status], _, (replay_cons stepped []).trans rfl,
    ⟨?_, ?_, fun other => ?_, fun other => ?_⟩, rfl⟩
  · -- Its value and its queue are as they were.
    rw [semaphores]
    exact represents.value
  · rw [semaphores]
    exact represents.queue
  · -- Both have the new status, and everybody is inside P who was.
    rw [changed]
    exact update_val represents.status ⟨thread, within⟩ status other
  · exact (represents.insideP other).trans (inside other).symm

/-- A thread that is not new has been created. -/
theorem Invariant.created (inv : sys.Invariant) (known : sys.status thread ≠ .justCreated) :
    thread < sys.created := by
  by_contra far
  exact known ((inv.unforked thread).mp (inv.fresh thread (Nat.le_of_not_lt far)))

/-- Who executes has been created. -/
theorem Invariant.current_within (inv : sys.Invariant)
    (awake : ∀ finishing, sys.phase ≠ .sleeping finishing) (within : sys.created ≤ n) :
    sys.currentThread < n :=
  Nat.lt_of_lt_of_le (inv.created (by simp [inv.current awake])) within

/-- A call of `V` is one of the semaphore by itself, which wakes the same thread. -/
theorem Follows.v_here (inv : sys.Invariant) : sys.Follows semaphore n 1 (sys.v semaphore) := by
  intro single represents
  cases queue : single.sem.queue with
  -- Nobody waits, there as here: the value counts one up.
  | nil =>
    have empty : (sys.semaphores semaphore).queue = [] := by
      rw [← represents.queue, queue, List.map_nil]
    refine ⟨[.v], { single with
      sem := { single.sem with value := single.sem.value + 1 }, vCalls := single.vCalls + 1 }, ?_,
      ?_, rfl⟩
    · simp [replay, SemaphoreSystem.step, Semaphore.v, queue]
    · rw [v_nil empty]
      -- Nothing else has changed on either side.
      refine ⟨?_, ?_, represents.status, represents.insideP⟩
      · simp [represents.value]
      · simp [queue]
  -- The front of the queue is the same thread on both sides.
  | cons front rest =>
    have waiting : (sys.semaphores semaphore).queue = front.val :: rest.map Fin.val := by
      rw [← represents.queue, queue, List.map_cons]
    have blocked := (inv.waiting waiting).1
    refine ⟨[.v], { single with
      sem := { value := single.sem.value + 1, queue := rest }
      status := Function.update single.status front .ready
      vCalls := single.vCalls + 1 }, ?_, ?_, rfl⟩
    · -- One step of the semaphore by itself.
      simp [replay, SemaphoreSystem.step, Semaphore.v, queue]
    · rw [inv.v_cons waiting]
      refine ⟨?_, ?_, fun other => ?_, fun other => ?_⟩
      · -- The value, the queue and the status agree after it.
        simp [represents.value]
      · simp
      · exact update_val represents.status front .ready other
      · -- The thread that is woken is inside P before and after.
        refine (represents.insideP other).trans ?_
        by_cases same : (other : Nat) = front
        · simp [Tests, setStatus, same, blocked]
        · simp [Tests, setStatus, same]

/-- A call of `V` on another semaphore wakes a thread that is asleep there. -/
theorem Follows.v_other (inv : sys.Invariant) (parks : sys.Parks) (within : sys.created ≤ n)
    (different : other ≠ semaphore) : sys.Follows semaphore n 0 (sys.v other) := by
  have untouched : ∀ after, Function.update sys.semaphores other after semaphore =
      sys.semaphores semaphore := fun after => Function.update_of_ne different.symm _ _
  -- The thread that is woken waits on the other semaphore, so it is outside this P.
  cases queue : (sys.semaphores other).queue with
  | nil =>
    -- Nobody is woken, and this semaphore is not touched.
    rw [v_nil queue]
    exact .unchanged (untouched _) rfl fun thread => tests_iff rfl rfl Iff.rfl
  | cons woken rest =>
    have blocked := (inv.waiting queue).1
    have tests : sys.continuation woken = .tests other :=
      parks woken other (by rw [queues, queue]; exact List.mem_cons_self)
    have elsewhere : ¬ sys.Tests semaphore woken := fun inside => by
      have same := tests.symm.trans inside.1
      simp only [Continuation.tests.injEq] at same
      exact different same
    have created : woken < sys.created := inv.created (by simp [blocked])
    -- For this semaphore the woken thread is one that changes its status elsewhere.
    rw [inv.v_cons queue]
    refine .elsewhere (Nat.lt_of_lt_of_le created within) (untouched _) rfl
      (fun inside => elsewhere inside.1) (fun inside => elsewhere inside.1) fun thread => ?_
    -- It is inside the other P, and so not inside this one.
    by_cases same : thread = woken
    · subst same
      exact ⟨fun inside => absurd (tests.symm.trans inside.1) (by simp [different]),
        fun inside => absurd inside elsewhere⟩
    · exact tests_iff rfl (by simp [setStatus, same]) Iff.rfl

/-- A test in `P` is one of the semaphore by itself, by the same thread and with the same end. -/
theorem Follows.p_here (inv : sys.Invariant) (awake : ∀ finishing, sys.phase ≠ .sleeping finishing)
    (within : sys.created ≤ n) : sys.Follows semaphore n 0 (sys.p semaphore) := by
  -- The caller runs, and it is one of the threads that are followed.
  intro single represents
  have running := inv.current awake
  have caller : sys.currentThread < n := inv.current_within awake within
  have runs : single.status ⟨sys.currentThread, caller⟩ = .running := by
    rw [represents.status, running]
  by_cases zero : (sys.semaphores semaphore).value = 0
  · -- The caller goes to sleep in both.
    have none : single.sem.value = 0 := by rw [represents.value, zero]
    refine ⟨[.p ⟨sys.currentThread, caller⟩], { single with
      sem := { single.sem with queue := single.sem.queue ++ [⟨sys.currentThread, caller⟩] }
      insideP := Function.update single.insideP ⟨sys.currentThread, caller⟩ true
      status := Function.update single.status ⟨sys.currentThread, caller⟩ .blocked }, ?_, ?_, rfl⟩
    · -- One step of the semaphore by itself, which finds no unit.
      simp [replay, SemaphoreSystem.step, Semaphore.test, runs, none]
    · rw [p_zero zero]
      refine ⟨?_, ?_, fun other => ?_, fun other => ?_⟩
      · -- Value and queue agree, and so does who is inside P.
        simp [represents.value]
      · simp [represents.queue]
      · exact update_val represents.status ⟨sys.currentThread, caller⟩ .blocked other
      · by_cases same : other = ⟨sys.currentThread, caller⟩
        · simp [Tests, setStatus, same]
        · -- The others are inside P as before.
          have apart : (other : Nat) ≠ sys.currentThread := fun equal => same (Fin.ext equal)
          have before := represents.insideP other
          simpa [Tests, setStatus, same, apart] using before
  · -- The caller takes a unit in both, and is back from P.
    have some : single.sem.value ≠ 0 := by rwa [represents.value]
    refine ⟨[.p ⟨sys.currentThread, caller⟩], { single with
      sem := { single.sem with value := single.sem.value - 1 }
      insideP := Function.update single.insideP ⟨sys.currentThread, caller⟩ false
      pReturns := single.pReturns + 1 }, ?_, ?_, rfl⟩
    · -- One step of the semaphore by itself, which takes a unit.
      simp [replay, SemaphoreSystem.step, Semaphore.test, runs, some]
    · rw [p_pos zero]
      refine ⟨?_, ?_, represents.status, fun other => ?_⟩
      · -- Value and queue agree, and only the caller has left P.
        simp [represents.value]
      · simp [represents.queue]
      · by_cases same : other = ⟨sys.currentThread, caller⟩
        · simp [Tests, same]
        · -- The others are inside P as before.
          have apart : (other : Nat) ≠ sys.currentThread := fun equal => same (Fin.ext equal)
          have before := represents.insideP other
          simpa [Tests, same, apart] using before

/-- A test in `P` of another semaphore puts the caller to sleep there, or lets it go on. -/
theorem Follows.p_other (inv : sys.Invariant) (awake : ∀ finishing, sys.phase ≠ .sleeping finishing)
    (within : sys.created ≤ n) (different : other ≠ semaphore)
    (outside : ¬ sys.Tests semaphore sys.currentThread) :
    sys.Follows semaphore n 0 (sys.p other) := by
  have untouched : ∀ after, Function.update sys.semaphores other after semaphore =
      sys.semaphores semaphore := fun after => Function.update_of_ne different.symm _ _
  -- Asleep there or not, the caller is not inside this P.
  by_cases zero : (sys.semaphores other).value = 0
  · rw [p_zero zero]
    -- The caller blocks, which happens elsewhere.
    refine .elsewhere (inv.current_within awake within) (untouched _) rfl
      (fun inside => outside inside.1) (fun inside => outside inside.1) fun thread => ?_
    by_cases same : thread = sys.currentThread
    · subst same
      exact ⟨fun inside => absurd inside.1 (by simp [different]),
        fun inside => absurd inside outside⟩
    · exact tests_iff (by simp [same]) (by simp [setStatus, same]) (by simp [setStatus, same])
  · -- The caller goes on, and nothing changes here.
    rw [p_pos zero]
    refine .unchanged (untouched _) rfl fun thread => ?_
    by_cases same : thread = sys.currentThread
    · subst same
      exact ⟨fun inside => absurd ⟨rfl, rfl⟩ inside.2.2.2, fun inside => absurd inside outside⟩
    · exact tests_iff rfl rfl (by simp [same])

/-- Who executes is not inside `P`. -/
theorem not_tests (executing : sys.phase = .executing) :
    ¬ sys.Tests semaphore sys.currentThread :=
  fun inside => inside.2.2.2 ⟨rfl, executing⟩

/-- Any test in `P` is followed, if the caller is not inside `P` of another semaphore. -/
theorem Follows.p (inv : sys.Invariant) (awake : ∀ finishing, sys.phase ≠ .sleeping finishing)
    (within : sys.created ≤ n)
    (outside : other ≠ semaphore → ¬ sys.Tests semaphore sys.currentThread) :
    sys.Follows semaphore n 0 (sys.p other) := by
  by_cases here : other = semaphore
  · subst here
    exact .p_here inv awake within
  · exact .p_other inv awake within here (outside here)

/-- `Yield` moves the caller to the ready list and the front of it to the processor. -/
theorem Follows.yield (inv : sys.Invariant) (executing : sys.phase = .executing)
    (within : sys.created ≤ n) : sys.Follows semaphore n 0 sys.yield := by
  -- Nobody in a queue of this semaphore runs, so two steps elsewhere do it.
  have awake : ∀ finishing, sys.phase ≠ .sleeping finishing := by simp [executing]
  have current := inv.current awake
  cases readyList : sys.readyList with
  -- Nobody is ready, and nothing happens.
  | nil =>
    rw [yield_nil readyList]
    exact .unchanged rfl rfl fun _ => Iff.rfl
  | cons nextThread rest =>
    have ready : sys.status nextThread = .ready :=
      (inv.consistent.ready_iff nextThread).mp (by simp [readyList])
    have created : nextThread < sys.created := inv.created (by simp [ready])
    have apart := (inv.apart executing readyList).1
    -- First the caller becomes ready, then the next thread runs.
    have leaves : sys.Follows semaphore n 0 { sys.setStatus sys.currentThread .ready with
        continuation := Function.update sys.continuation sys.currentThread .yields } := by
      refine .elsewhere (inv.current_within awake within) rfl rfl (by simp [current]) (by simp)
        fun thread => ?_
      -- The caller is in its own code until now, and so outside P.
      by_cases same : thread = sys.currentThread
      · subst same
        exact ⟨fun inside => absurd inside.1 (by simp),
          fun inside => absurd inside (not_tests executing)⟩
      · exact tests_iff (by simp [same]) (by simp [setStatus, same]) (by simp [setStatus, same])
    rw [inv.yield_cons executing readyList]
    apply leaves.trans
    -- The next thread was ready, and runs from now on.
    refine .elsewhere (Nat.lt_of_lt_of_le created within) rfl rfl ?_ ?_ fun thread => ?_
    · simp [setStatus, apart.symm, ready]
    · simp
    · -- It was in P if it is, and the others are where they were.
      by_cases same : thread = nextThread
      · simp [Tests, setStatus, same, apart.symm, ready]
      · by_cases caller : thread = sys.currentThread
        · simp [Tests, setStatus, caller]
        · simp [Tests, setStatus, same, caller]

/-- A new thread is put on the ready list. -/
theorem Follows.started (inv : sys.Invariant) (created : thread < sys.created)
    (unforked : sys.forked thread = false) (within : sys.created ≤ n) :
    sys.Follows semaphore n 0 (sys.started thread) := by
  have new : sys.status thread = .justCreated := (inv.unforked thread).mp unforked
  rw [inv.started_eq unforked]
  refine .elsewhere (Nat.lt_of_lt_of_le created within) rfl rfl (by simp [new]) (by simp)
    fun other => ?_
  by_cases same : other = thread
  · subst same
    exact ⟨fun inside => absurd inside.1 (by simp), fun inside => absurd new inside.2.1⟩
  · exact tests_iff (by simp [same]) (by simp [setStatus, same]) Iff.rfl

/-- The dispatch at the end of `Sleep` lets the front of the ready list run. -/
theorem Follows.dispatch {finishing : Bool} {nextThread : ThreadNumber} {rest : List ThreadNumber}
    (inv : sys.Invariant) (sleeping : sys.phase = .sleeping finishing)
    (readyList : sys.readyList = nextThread :: rest) (within : sys.created ≤ n) :
    sys.Follows semaphore n 0 ({ sys with readyList := rest }.run nextThread finishing) := by
  -- The next thread was ready, so it is not asleep in this P.
  have ready : sys.status nextThread = .ready :=
    (inv.consistent.ready_iff nextThread).mp (by simp [readyList])
  have created : nextThread < sys.created := inv.created (by simp [ready])
  have clean : sys.toBeDestroyed = none := inv.destroyed (by simp [sleeping])
  rw [run_eq (by exact clean)]
  refine .elsewhere (Nat.lt_of_lt_of_le created within) rfl rfl (by simp [ready]) (by simp)
    fun thread => ?_
  -- It changes its status elsewhere; nobody else changes at all.
  by_cases same : thread = nextThread
  · simp [Tests, setStatus, same, ready, sleeping]
  · simp [Tests, setStatus, same, sleeping]

/-- What a thread does after `SWITCH`: it goes on, or tests its semaphore again. -/
theorem Follows.resume (inv : sys.Invariant) (resuming : sys.phase = .resuming)
    (within : sys.created ≤ n) : sys.Follows semaphore n 0 sys.resume := by
  -- Deleting the carcass touches no semaphore.
  obtain ⟨threadCnt, cleaned⟩ := sys.checkToBeDestroyed_frame
  have onward := inv.checkToBeDestroyed
  rcases sys.resume_cases with ⟨none, result⟩ | ⟨tested, tests, result⟩
  · -- The thread comes back to its own code.
    rw [result, cleaned]
    refine .unchanged rfl rfl fun thread => ?_
    -- It was not in the loop of this P, and nobody else moved.
    by_cases same : thread = sys.currentThread
    · subst same
      exact ⟨fun inside => absurd inside.1 (none semaphore),
        fun inside => absurd inside.1 (none semaphore)⟩
    · exact tests_iff rfl rfl (by simp [same])
  · -- The thread is back in the loop of its P, and tests the value again.
    rw [result]
    have first : sys.Follows semaphore n 0 sys.checkToBeDestroyed := by
      rw [cleaned]
      exact .unchanged rfl rfl fun _ => Iff.rfl
    refine first.trans (.p onward.1.inv ?_ ?_ fun different inside => ?_)
    · simp [onward.2, resuming]
    · rw [cleaned]
      exact within
    · -- The semaphore that the thread is inside is the one that it tests.
      rw [cleaned] at inside
      have same := tests.symm.trans inside.1
      simp only [Continuation.tests.injEq] at same
      exact different same

/-- Whether an event is a call of `V` on the semaphore, by a thread or by an interrupt handler. -/
def callsV (semaphore : Nat) : ThreadEvent → Bool
  | .v called | .interrupt called => called = semaphore
  | _ => false

/-- The semaphore by itself follows every step of the kernel. -/
theorem Follows.step {event : ThreadEvent} (inv : sys.Invariant) (parks : sys.Parks)
    (within : sys.created ≤ n) (stepped : sys.step event = some next) :
    sys.Follows semaphore n (if callsV semaphore event then 1 else 0) next := by
  -- One lemma for each thing that a step can do.
  cases ThreadSystem.step_cases stepped with
  -- Making a thread touches no semaphore.
  | creates =>
    change sys.Follows semaphore n 0 sys.createThread
    unfold createThread
    split
    · exact .unchanged rfl rfl fun _ => Iff.rfl
    · exact .unchanged rfl rfl fun _ => Iff.rfl
  | orders => exact .unchanged rfl rfl fun _ => Iff.rfl
  -- The new thread is made ready, and then the caller yields.
  | forks executing thread created unforked =>
    have started := inv.started created unforked
    refine (Follows.started inv created unforked within).trans (.yield started.inv ?_ ?_)
    · rw [inv.started_eq unforked]
      exact executing
    · rw [inv.started_eq unforked]
      exact within
  | yields executing => exact .yield inv executing within
  | tests executing tested =>
    exact .p inv (by simp [executing]) within fun _ => not_tests executing
  -- A call of V counts, when it is on this semaphore.
  | wakes woken calls =>
    have counted : callsV semaphore event = decide (woken = semaphore) := by
      rcases calls with rfl | rfl <;> rfl
    by_cases here : woken = semaphore
    · rw [counted, here, if_pos (by simp)]
      exact .v_here inv
    · rw [counted, if_neg (by simpa using here)]
      exact .v_other inv parks within here
  -- The caller was in its own code, and is done now.
  | finishes executing =>
    refine .elsewhere (inv.current_within (by simp [executing]) within) rfl rfl
      (fun inside => not_tests executing inside.1) (by simp) fun thread => ?_
    by_cases same : thread = sys.currentThread
    · subst same
      exact ⟨fun inside => absurd (Function.update_self ..) inside.2.2.1,
        fun inside => absurd inside (not_tests executing)⟩
    · exact tests_iff rfl (by simp [finish, setStatus, same]) (by simp [finish, setStatus, same])
  -- The processor goes to the front of the ready list.
  | dispatches finishing nextThread rest sleeping readyList =>
    exact .dispatch inv sleeping readyList within
  | resumes resuming => exact .resume inv resuming within

/-- A thread that waits nowhere may change what it does when it is back. -/
theorem Parks.update (parks : sys.Parks) (inv : sys.Invariant) {continuation : Continuation}
    (queues : next.queues = sys.queues) (known : sys.status thread ≠ .blocked)
    (changed : next.continuation = Function.update sys.continuation thread continuation) :
    next.Parks := by
  intro waiter semaphore member
  rw [queues] at member
  have blocked := inv.consistent.blocked waiter semaphore member
  have apart : waiter ≠ thread := fun same => known (same ▸ blocked)
  rw [changed, Function.update_of_ne apart]
  exact parks waiter semaphore member

/-- Queues that do not grow keep those who are parked in their loops. -/
theorem Parks.shrink (parks : sys.Parks) (continuation : next.continuation = sys.continuation)
    (fewer : ∀ thread semaphore, thread ∈ next.queues semaphore → thread ∈ sys.queues semaphore) :
    next.Parks := by
  intro waiter semaphore member
  rw [continuation]
  exact parks waiter semaphore (fewer waiter semaphore member)

/-- A test in `P` parks the caller in its loop, if it parks it. -/
theorem Parks.p (parks : sys.Parks) (inv : sys.Invariant)
    (awake : ∀ finishing, sys.phase ≠ .sleeping finishing) (semaphore : Nat) :
    (sys.p semaphore).Parks := by
  -- If there is a unit, nobody is put anywhere.
  by_cases zero : (sys.semaphores semaphore).value = 0
  · rw [p_zero zero]
    intro waiter other member
    dsimp only [queues] at member ⊢
    by_cases same : waiter = sys.currentThread
    · -- Whoever runs is on no queue, so that it has just been put on this one.
      subst same
      by_cases here : other = semaphore
      · simp [here]
      · rw [Function.update_of_ne here] at member
        have blocked := inv.consistent.blocked _ other member
        rw [inv.current awake] at blocked
        cases blocked
    · -- The others wait where they waited.
      rw [Function.update_of_ne same]
      apply parks waiter other
      by_cases here : other = semaphore
      · subst here
        simpa [queues, same] using member
      · simpa [queues, here] using member
  · -- The caller goes on, and no queue has grown.
    rw [p_pos zero]
    refine parks.shrink rfl fun thread other member => ?_
    by_cases here : other = semaphore
    · subst here
      simpa [queues] using member
    · simpa [queues, here] using member

/-- `Yield` moves nobody that is parked. -/
theorem Parks.yield (parks : sys.Parks) (inv : sys.Invariant) (executing : sys.phase = .executing) :
    sys.yield.Parks := by
  cases readyList : sys.readyList with
  | nil =>
    rw [yield_nil readyList]
    exact parks
  | cons nextThread rest =>
    rw [inv.yield_cons executing readyList]
    exact parks.update inv rfl (by simp [inv.current (by simp [executing])]) rfl

/-- Whoever is on a queue stays in the loop of that semaphore. -/
theorem Parks.step {event : ThreadEvent} (parks : sys.Parks) (inv : sys.Invariant)
    (stepped : sys.step event = some next) : next.Parks := by
  -- By cases on the step: only P puts anyone on a queue.
  cases ThreadSystem.step_cases stepped with
  -- A thread is made, and no queue changes.
  | creates =>
    unfold createThread
    split
    · exact parks
    · exact parks
  | orders => exact parks
  -- The new thread is on no queue.
  | forks executing thread created unforked =>
    have new : sys.status thread = .justCreated := (inv.unforked thread).mp unforked
    have started : (sys.started thread).Parks := by
      rw [inv.started_eq unforked]
      exact parks.update inv rfl (by simp [new]) rfl
    refine started.yield (inv.started created unforked).inv ?_
    rw [inv.started_eq unforked]
    exact executing
  | yields executing => exact parks.yield inv executing
  | tests executing semaphore => exact parks.p inv (by simp [executing]) semaphore
  -- V takes a thread off its queue and puts none on.
  | wakes semaphore =>
    cases queue : (sys.semaphores semaphore).queue with
    | nil =>
      rw [v_nil queue]
      refine parks.shrink rfl fun thread other member => ?_
      by_cases here : other = semaphore
      · simp [queues, here] at member
      · simpa [queues, here] using member
    -- The rest of the queue waited there before.
    | cons woken rest =>
      rw [inv.v_cons queue]
      refine parks.shrink rfl fun thread other member => ?_
      by_cases here : other = semaphore
      · subst here
        rw [queues, queue]
        exact List.mem_cons_of_mem woken (by simpa [queues] using member)
      · simpa [queues, here] using member
  | finishes => exact parks
  -- The dispatch changes no queue.
  | dispatches finishing nextThread rest sleeping readyList =>
    rw [run_eq (by exact inv.destroyed (by simp [sleeping]))]
    exact parks
  -- After a `SWITCH` the thread may test its semaphore again.
  | resumes resuming =>
    obtain ⟨threadCnt, cleaned⟩ := sys.checkToBeDestroyed_frame
    have onward := inv.checkToBeDestroyed
    rcases sys.resume_cases with ⟨-, result⟩ | ⟨tested, -, result⟩
    · rw [result, cleaned]
      exact parks
    · have first : sys.checkToBeDestroyed.Parks := by
        rw [cleaned]
        exact parks
      rw [result]
      exact first.p onward.1.inv (by simp [onward.2, resuming]) tested

/-- No step takes back a thread number. -/
theorem Invariant.created_mono {event : ThreadEvent} (inv : sys.Invariant)
    (stepped : sys.step event = some next) : sys.created ≤ next.created := by
  -- No yield takes a number back.
  have yields : ∀ {sys : ThreadSystem}, sys.Invariant → sys.phase = .executing →
      sys.created ≤ sys.yield.created := fun {sys} inv executing => by
    cases readyList : sys.readyList with
    | nil => rw [yield_nil readyList]
    | cons nextThread rest => rw [inv.yield_cons executing readyList]
  -- Nor does a test in P.
  have tests : ∀ (sys : ThreadSystem) semaphore, sys.created ≤ (sys.p semaphore).created :=
    fun sys semaphore => by
      by_cases zero : (sys.semaphores semaphore).value = 0
      · rw [p_zero zero]
        exact Nat.le_refl _
      · rw [p_pos zero]
  -- By cases on the step, of which the first is the only one that counts up.
  cases ThreadSystem.step_cases stepped with
  | creates =>
    unfold createThread
    split
    · exact Nat.le_succ _
    · exact Nat.le_refl _
  | orders => exact Nat.le_refl _
  -- Fork is a yield, as far as numbers go.
  | forks executing thread created unforked =>
    have onward := yields (inv.started created unforked).inv (by
      rw [inv.started_eq unforked]
      exact executing)
    rw [inv.started_eq unforked] at onward ⊢
    exact onward
  | yields executing => exact yields inv executing
  | tests executing semaphore => exact tests sys semaphore
  -- V touches the semaphores and the ready list.
  | wakes semaphore =>
    obtain ⟨semaphores, status, readyList, result⟩ := inv.v_frame semaphore
    rw [result]
  | finishes => exact Nat.le_refl _
  | dispatches finishing nextThread rest sleeping readyList =>
    rw [run_eq (by exact inv.destroyed (by simp [sleeping]))]
    exact Nat.le_refl _
  -- The carcass keeps its number, and then there is at most a test.
  | resumes =>
    obtain ⟨threadCnt, cleaned⟩ := sys.checkToBeDestroyed_frame
    rcases sys.resume_cases with ⟨-, result⟩ | ⟨tested, -, result⟩
    · rw [result, cleaned]
    · have onward := tests sys.checkToBeDestroyed tested
      rw [result]
      rw [cleaned] at onward ⊢
      exact onward

/-- The semaphore by itself has followed the kernel from its start through these events. -/
def Followed (initialValue : Nat → Int) (semaphore : Nat) (sys : ThreadSystem)
    (events : List ThreadEvent) : Prop :=
  ∀ n, sys.created ≤ n → ∃ moves, ∃ single : SemaphoreSystem (Fin n),
    replay SemaphoreSystem.step (.start (initialValue semaphore)
      fun thread : Fin n => (start initialValue).status thread) moves = some single ∧
    sys.Represents semaphore single ∧ single.vCalls = events.countP (callsV semaphore)

/-- At the start the semaphore by itself is as the kernel has it. -/
theorem followed_start (initialValue : Nat → Int) (semaphore : Nat) :
    (start initialValue).Followed initialValue semaphore [] := by
  refine fun n _ => ⟨[], .start (initialValue semaphore) fun thread : Fin n =>
    (start initialValue).status thread, rfl, ⟨rfl, rfl, fun _ => rfl, fun thread => ?_⟩, rfl⟩
  -- Nobody is in any P.
  simp [SemaphoreSystem.start, Tests, start]

/-- Along every run of the kernel the semaphore by itself follows. -/
theorem followed_run {initialValue : Nat → Int} {events : List ThreadEvent}
    (reached : replay ThreadSystem.step (start initialValue) events = some sys)
    (semaphore : Nat) : sys.Invariant ∧ sys.Followed initialValue semaphore events := by
  have kept : ∀ sys earlier event next,
      (sys.Invariant ∧ sys.Parks ∧ sys.Followed initialValue semaphore earlier) →
      ThreadSystem.step sys event = some next →
      next.Invariant ∧ next.Parks ∧ next.Followed initialValue semaphore (earlier ++ [event]) := by
    -- One more event: the semaphore by itself follows as far as it did, and then one step more.
    intro sys earlier event next ⟨inv, parks, followed⟩ stepped
    refine ⟨(inv.step stepped).inv, parks.step inv stepped, fun n within => ?_⟩
    have before : sys.created ≤ n := (inv.created_mono stepped).trans within
    obtain ⟨moves, single, went, represents, counted⟩ := followed n before
    -- The step is followed by events of the semaphore, whose calls of V are counted.
    obtain ⟨more, after, goesOn, represents, also⟩ :=
      Follows.step inv parks before stepped single represents
    refine ⟨moves ++ more, after, by rw [replay_append went, goesOn], represents, ?_⟩
    rw [also, counted, List.countP_append, List.countP_singleton]
  -- At the start nobody waits.
  have starts : (start initialValue).Parks := by simp [Parks, queues, start, Semaphore.new]
  have ends := replay_history kept
    ⟨invariant_start initialValue, starts, followed_start initialValue semaphore⟩ reached
  exact ⟨ends.1, ends.2.2⟩

end ThreadSystem

open ThreadSystem

/--
The kernel implements its semaphores: each of them goes through a run of the semaphore by itself.

Whatever the threads, the scheduler and the interrupt handlers do, the value and the queue of the
semaphore, the states of the threads, and which of them are inside its `P`, are those at the end of
a run of the semaphore alone, in which `V` is called as often as in the kernel.
-/
theorem kernel_refinesSemaphore (initialValue : Nat → Int) (semaphore : Nat)
    (events : List ThreadEvent) (sys : ThreadSystem)
    (reached : replay ThreadSystem.step (.start initialValue) events = some sys) :
    ∃ moves, ∃ single : SemaphoreSystem (Fin sys.created),
      replay SemaphoreSystem.step (.start (initialValue semaphore)
        fun thread : Fin sys.created => (start initialValue).status thread) moves = some single ∧
      sys.Represents semaphore single ∧
      single.vCalls = events.countP (callsV semaphore) :=
  (followed_run reached semaphore).2 sys.created (Nat.le_refl _)

/-- The main thread sleeps in `P` until an interrupt handler calls `V`, and takes the unit. -/
theorem kernel_refinesSemaphore_idle :
    ∃ moves, ∃ single : SemaphoreSystem (Fin 1),
      replay SemaphoreSystem.step (.start 0 fun thread : Fin 1 =>
        (start fun _ => 0).status thread) moves = some single ∧
      single.sem.value = 0 ∧ single.vCalls = 1 := by
  obtain ⟨moves, single, ran, represents, counted⟩ :=
    kernel_refinesSemaphore (fun _ => 0) 3 [.p 3, .interrupt 3, .dispatch, .resume] _ rfl
  exact ⟨moves, single, ran, represents.value, counted⟩

end Nachos
