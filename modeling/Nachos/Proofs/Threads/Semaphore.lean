import Mathlib.Data.Fintype.Card
import Nachos.Threads.Semaphore

/-! No unit and no wake-up of a semaphore is lost, in any interleaving of `P` and `V`. -/

namespace Nachos

section

variable {Thread : Type} [DecidableEq Thread]

/-- What every interleaving of `P` and `V` keeps. -/
structure SemaphoreSystem.Invariant (initialValue : Int) [Fintype Thread]
    (sys : SemaphoreSystem Thread) : Prop where
  nonneg : 0 ≤ sys.sem.value
  balance : sys.sem.value = initialValue + sys.vCalls - sys.pReturns
  queue_nodup : sys.sem.queue.Nodup
  queued_iff : ∀ thread, thread ∈ sys.sem.queue ↔ sys.Blocked thread
  -- Units that are free while somebody waits are spoken for by threads on their way.
  wakeups : sys.sem.queue ≠ [] → sys.sem.value ≤ (Finset.univ.filter sys.Woken).card

/-- What a step can do: one line for each way an event can go. -/
theorem SemaphoreSystem.step_cases {sys next : SemaphoreSystem Thread}
    {event : SemaphoreEvent Thread} (stepped : sys.step event = some next) :
    (∃ thread, event = .p thread ∧ sys.status thread = .running ∧ sys.sem.value ≠ 0 ∧
      next = { sys with
        sem := { sys.sem with value := sys.sem.value - 1 }
        insideP := Function.update sys.insideP thread false
        pReturns := sys.pReturns + 1 }) ∨
    (∃ thread, event = .p thread ∧ sys.status thread = .running ∧ sys.sem.value = 0 ∧
      next = { sys with
        sem := { sys.sem with queue := sys.sem.queue ++ [thread] }
        insideP := Function.update sys.insideP thread true
        status := Function.update sys.status thread .blocked }) ∨
    (event = .v ∧ sys.sem.queue = [] ∧
      next = { sys with
        sem := { sys.sem with value := sys.sem.value + 1 }, vCalls := sys.vCalls + 1 }) ∨
    (∃ front rest, event = .v ∧ sys.sem.queue = front :: rest ∧
      next = { sys with
        sem := { value := sys.sem.value + 1, queue := rest }
        status := Function.update sys.status front .ready
        vCalls := sys.vCalls + 1 }) ∨
    (∃ thread status, event = .elsewhere thread status ∧ ¬ sys.Blocked thread ∧
      ¬ (sys.insideP thread = true ∧ status = .blocked) ∧
      next = { sys with status := Function.update sys.status thread status }) := by
  -- By cases on the event, and then on the branch that its definition takes.
  cases event with
  | p thread =>
    simp only [step] at stepped
    split at stepped
    · rename_i running
      -- The thread goes to sleep at 0, and else takes one.
      by_cases zero : sys.sem.value = 0
      · simp only [Semaphore.test, if_pos zero, Option.some.injEq] at stepped
        exact .inr (.inl ⟨thread, rfl, running, zero, stepped.symm⟩)
      · simp only [Semaphore.test, if_neg zero, Option.some.injEq] at stepped
        exact .inl ⟨thread, rfl, running, zero, stepped.symm⟩
    · -- Only a running thread calls P.
      cases stepped
  | v =>
    cases queue : sys.sem.queue with
    | nil =>
      -- Nobody waits: the unit is free.
      simp only [step, Semaphore.v, queue, Option.some.injEq] at stepped
      refine .inr (.inr (.inl ⟨rfl, rfl, ?_⟩))
      rw [← stepped, ← queue]
    | cons front rest =>
      -- The front of the queue is handed to the scheduler.
      simp only [step, Semaphore.v, queue, Option.some.injEq] at stepped
      exact .inr (.inr (.inr (.inl ⟨front, rest, rfl, rfl, stepped.symm⟩)))
  | elsewhere thread status =>
    simp only [step] at stepped
    split at stepped
    · -- Sleepers are not dispatched, and nobody is put to sleep here from outside.
      cases stepped
    · rename_i free
      simp only [Option.some.injEq] at stepped
      exact .inr (.inr (.inr (.inr
        ⟨thread, status, rfl, fun h => free (.inl h), fun h => free (.inr h), stepped.symm⟩)))

variable {initialValue : Int} {sys : SemaphoreSystem Thread}

/-- Taking a unit uses up at most one thread that was on its way to take it. -/
theorem SemaphoreSystem.woken_card_take [Fintype Thread] (sys next : SemaphoreSystem Thread)
    (thread : Thread)
    (insideP : next.insideP = Function.update sys.insideP thread false)
    (status : next.status = sys.status) :
    (Finset.univ.filter sys.Woken).card ≤ (Finset.univ.filter next.Woken).card + 1 := by
  -- Everyone else stands where they stood.
  have others : (Finset.univ.filter sys.Woken).erase thread ⊆ Finset.univ.filter next.Woken := by
    intro other member
    obtain ⟨different, member⟩ := Finset.mem_erase.mp member
    have woken : sys.Woken other := (Finset.mem_filter.mp member).2
    simp [Woken, insideP, status, different, woken.1, woken.2]
  -- Take one thread out of the woken ones, and the others are woken after the step as well.
  have erased := Finset.pred_card_le_card_erase (a := thread) (s := Finset.univ.filter sys.Woken)
  have kept := Finset.card_le_card others
  omega

/-- Waking the front of the queue puts one more thread on its way. -/
theorem SemaphoreSystem.woken_card_wake [Fintype Thread] (sys next : SemaphoreSystem Thread)
    {front : Thread} (blocked : sys.Blocked front)
    (insideP : next.insideP = sys.insideP)
    (status : next.status = Function.update sys.status front .ready) :
    (Finset.univ.filter sys.Woken).card + 1 ≤ (Finset.univ.filter next.Woken).card := by
  -- The front thread was asleep, so it is new among the woken ones.
  have asleep : front ∉ Finset.univ.filter sys.Woken := by simp [Woken, blocked.2]
  have grown : insert front (Finset.univ.filter sys.Woken) ⊆ Finset.univ.filter next.Woken := by
    intro other member
    rcases Finset.mem_insert.mp member with same | member
    · -- The front thread is awake now, and still inside P.
      subst same
      simp [Woken, insideP, status, blocked.1]
    · have woken : sys.Woken other := (Finset.mem_filter.mp member).2
      have different : other ≠ front := by
        rintro rfl
        exact woken.2 blocked.2
      simp [Woken, insideP, status, different, woken.1, woken.2]
  have counted := Finset.card_le_card grown
  rwa [Finset.card_insert_of_notMem asleep] at counted

omit [DecidableEq Thread] in
/-- A new semaphore satisfies the invariant. -/
theorem SemaphoreSystem.invariant_start [Fintype Thread] (nonneg : 0 ≤ initialValue)
    (status : Thread → ThreadStatus) : (start initialValue status).Invariant initialValue where
  nonneg := nonneg
  balance := by simp [start, Semaphore.new]
  queue_nodup := List.nodup_nil
  queued_iff := by simp [start, Semaphore.new, Blocked]
  wakeups := by simp [start, Semaphore.new]

/-- Every atomic step keeps the invariant. -/
theorem SemaphoreSystem.invariant_step [Fintype Thread] {next : SemaphoreSystem Thread}
    {event : SemaphoreEvent Thread} (inv : sys.Invariant initialValue)
    (stepped : sys.step event = some next) : next.Invariant initialValue := by
  obtain ⟨nonneg, balance, queueNodup, queuedIff, wakeups⟩ := inv
  -- By cases on the step, each with its five parts.
  rcases step_cases stepped with
    ⟨thread, -, running, positive, rfl⟩ | ⟨thread, -, running, zero, rfl⟩ | ⟨-, empty, rfl⟩ |
    -- The caller was running, so it was not among the sleepers, and is not now.
    ⟨front, rest, -, queue, rfl⟩ | ⟨thread, status, -, awake, stays, rfl⟩
  · -- The unit is taken, perhaps from under a woken thread, which will then queue again.
    refine ⟨by dsimp only; omega, by dsimp only; omega, queueNodup, fun other => ?_, fun waiting => ?_⟩
    · rw [queuedIff other]
      -- A unit is gone, and at most one woken thread with it.
      by_cases same : other = thread
      · subst same
        simp [Blocked, running]
      · simp [Blocked, same]
    · have taken := sys.woken_card_take { sys with
        sem := { sys.sem with value := sys.sem.value - 1 }
        insideP := Function.update sys.insideP thread false
        pReturns := sys.pReturns + 1 } thread rfl rfl
      have before := wakeups waiting
      dsimp only at taken ⊢
      omega
  · -- Nothing is free, so the caller goes to the end of the queue.
    -- The caller was not queued, so the queue has nobody twice.
    have absent : thread ∉ sys.sem.queue := fun member => by
      -- The caller sleeps now; the others are as they were.
      have := ((queuedIff thread).mp member).2
      simp [running] at this
    refine ⟨nonneg, balance, ?_, fun other => ?_, fun _ => ?_⟩
    · simpa [List.nodup_append] using ⟨queueNodup, fun other member same => absent (same ▸ member)⟩
    · simp only [List.mem_append, List.mem_singleton, queuedIff other]
      -- The value is 0, so there is nothing that could be owed to a waiter.
      by_cases same : other = thread
      · subst same
        simp [Blocked]
      · simp [Blocked, same]
    · dsimp only
      omega
  · -- Nobody waits, so the unit is simply free.
    refine ⟨by dsimp only; omega, by dsimp only; push_cast; omega, queueNodup, queuedIff, ?_⟩
    exact fun waiting => absurd empty waiting
  · -- The front thread is woken for the unit that is now free.
    have blocked : sys.Blocked front := (queuedIff front).mp (by simp [queue])
    rw [queue] at queueNodup
    obtain ⟨absent, restNodup⟩ := List.nodup_cons.mp queueNodup
    -- The front thread is off the queue and awake.
    refine ⟨by dsimp only; omega, by dsimp only; push_cast; omega, restNodup, fun other => ?_,
      fun _ => ?_⟩
    · by_cases same : other = front
      · subst same
        simp [Blocked, absent]
      · have queued := queuedIff other
        -- A unit is free now, and one more thread is on its way.
        rw [queue, List.mem_cons] at queued
        simpa [Blocked, same] using queued
    · have woken := sys.woken_card_wake { sys with
        sem := { value := sys.sem.value + 1, queue := rest }
        status := Function.update sys.status front .ready
        vCalls := sys.vCalls + 1 } blocked rfl rfl
      have before := wakeups (by simp [queue])
      dsimp only at woken ⊢
      omega
  · -- The rest of the kernel moves neither the sleepers here nor the woken.
    have blockedSame : ∀ other, SemaphoreSystem.Blocked { sys with
        status := Function.update sys.status thread status } other ↔ sys.Blocked other := by
      intro other
      by_cases same : other = thread
      · subst same
        simp only [Blocked, Function.update_self] at awake stays ⊢
        exact ⟨fun h => absurd h stays, fun h => absurd h awake⟩
      · simp [Blocked, same]
    have wokenSame : Finset.univ.filter (SemaphoreSystem.Woken { sys with
        status := Function.update sys.status thread status }) = Finset.univ.filter sys.Woken := by
      apply Finset.filter_congr
      intro other _
      by_cases same : other = thread
      · subst same
        simp only [Blocked, Woken, Function.update_self] at awake stays ⊢
        exact ⟨fun h => ⟨h.1, fun s => awake ⟨h.1, s⟩⟩, fun h => ⟨h.1, fun s => stays ⟨h.1, s⟩⟩⟩
      · simp [Woken, same]
    exact ⟨nonneg, balance, queueNodup, fun other => (queuedIff other).trans (blockedSame other).symm,
      fun waiting => by rw [wokenSame]; exact wakeups waiting⟩

end

end Nachos
