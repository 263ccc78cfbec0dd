import Mathlib.Data.List.Nodup
import Nachos.Proofs.Threads.Lock
import Nachos.Threads.Condition

/-! No signal is lost: what every interleaving of the calls of a condition keeps. -/

namespace Nachos

section

variable {Thread : Type} [DecidableEq Thread]

/-- What holds of a thread, by the stage it is at. -/
def ConditionSystem.Placed (sys : ConditionSystem Thread) (thread : Thread) :
    ConditionStage → Prop
  | .body => True
  | .unlocking waiter =>
    (sys.lock.stage thread = .holding ∨ sys.lock.stage thread = .vacated) ∧
      waiter ∈ sys.waitQueue ∧ sys.semaphores waiter = { value := 0, queue := [] }
  | .waiting waiter =>
    sys.lock.stage thread = .outside ∧
      (waiter ∈ sys.waitQueue ∧ sys.semaphores waiter = { value := 0, queue := [] } ∨
        waiter ∈ sys.released ∧ sys.semaphores waiter = { value := 1, queue := [] })
  | .parked waiter =>
    sys.lock.stage thread = .outside ∧
      waiter ∈ sys.waitQueue ∧ sys.semaphores waiter = { value := 0, queue := [thread] }
  | .relocking waiter =>
    sys.lock.stage thread ≠ .holding ∧ sys.lock.stage thread ≠ .vacated ∧ waiter ∈ sys.released
  | .broadcasting released queued =>
    sys.lock.stage thread = .holding ∧
      ∃ done, queued = done ++ sys.waitQueue ∧ sys.released = released ++ done

/-- What every interleaving of the calls keeps. -/
structure ConditionSystem.Invariant (sys : ConditionSystem Thread) : Prop where
  locked : sys.lock.Invariant
  sound : sys.aborted = false
  -- Every semaphore was made in turn, and is released in turn.
  order : sys.released ++ sys.waitQueue = List.range sys.created
  placed : ∀ thread, sys.Placed thread (sys.stage thread)
  owned : ∀ waiter ∈ sys.waitQueue, ∃ thread, (sys.stage thread).waiter = some waiter
  alone : ∀ {thread other waiter}, (sys.stage thread).waiter = some waiter →
    (sys.stage other).waiter = some waiter → thread = other

/-- What a step can do: one line for each way a piece can go. -/
theorem ConditionSystem.step_cases {sys next : ConditionSystem Thread}
    {event : ConditionEvent Thread} (stepped : sys.step event = some next) :
    (∃ piece lock, event = .lock piece ∧ (sys.stage piece.thread).allows piece = true ∧
      sys.lock.step piece = some lock ∧
      next = { sys with lock }.move piece.thread ((sys.stage piece.thread).after piece)) ∨
    (∃ thread, event = .wait thread ∧ sys.lock.stage thread = .holding ∧
      sys.stage thread = .body ∧ next = sys.wait thread) ∨
    (∃ thread waiter, event = .p thread ∧ sys.stage thread = .waiting waiter ∧
      (sys.semaphores waiter).value ≠ 0 ∧
      next = (sys.store waiter { sys.semaphores waiter with
        value := (sys.semaphores waiter).value - 1 }).move thread (.relocking waiter)) ∨
    (∃ thread waiter, event = .p thread ∧ sys.stage thread = .waiting waiter ∧
      (sys.semaphores waiter).value = 0 ∧
      next = (sys.store waiter { sys.semaphores waiter with
        queue := (sys.semaphores waiter).queue ++ [thread] }).move thread (.parked waiter)) ∨
    (∃ thread, event = .signal thread ∧ sys.lock.stage thread = .holding ∧
      sys.stage thread = .body ∧ next = sys.signal thread) ∨
    (∃ thread, event = .broadcast thread ∧ sys.lock.stage thread = .holding ∧
      sys.stage thread = .body ∧
      next = sys.move thread (.broadcasting sys.released sys.waitQueue)) ∨
    (∃ thread released queued, event = .loop thread ∧
      sys.stage thread = .broadcasting released queued ∧ sys.waitQueue = [] ∧
      next = sys.move thread .body) ∨
    (∃ thread released queued, event = .loop thread ∧
      sys.stage thread = .broadcasting released queued ∧ sys.waitQueue ≠ [] ∧
      next = sys.signal thread) := by
  -- By cases on the event, and then on the stage where it can happen.
  cases event with
  | lock piece =>
    -- A step of the lock goes to the lock below, when the stage allows it.
    simp only [step, Option.ite_none_right_eq_some, Option.map_eq_some_iff] at stepped
    obtain ⟨allowed, lock, locked, result⟩ := stepped
    exact .inl ⟨piece, lock, rfl, allowed, locked, result.symm⟩
  | wait thread =>
    -- Only a thread that has the lock, and is in no call, may begin one.
    simp only [step, free, Option.ite_none_right_eq_some, Option.some.injEq, Bool.and_eq_true,
      decide_eq_true_eq] at stepped
    exact .inr (.inl ⟨thread, rfl, stepped.1.1, stepped.1.2, stepped.2.symm⟩)
  | p thread =>
    cases stage : sys.stage thread with
    | waiting waiter =>
      simp only [step, stage] at stepped
      -- The thread goes to sleep at 0, and else takes one.
      by_cases zero : (sys.semaphores waiter).value = 0
      · simp only [Semaphore.test, if_pos zero, Option.some.injEq] at stepped
        exact .inr (.inr (.inr (.inl ⟨thread, waiter, rfl, stage, zero, stepped.symm⟩)))
      · simp only [Semaphore.test, if_neg zero, Option.some.injEq] at stepped
        exact .inr (.inr (.inl ⟨thread, waiter, rfl, stage, zero, stepped.symm⟩))
    | _ => simp [step, stage] at stepped
  -- A signal needs the lock as well.
  | signal thread =>
    simp only [step, free, Option.ite_none_right_eq_some, Option.some.injEq, Bool.and_eq_true,
      decide_eq_true_eq] at stepped
    exact .inr (.inr (.inr (.inr (.inl ⟨thread, rfl, stepped.1.1, stepped.1.2, stepped.2.symm⟩))))
  -- So does a broadcast.
  | broadcast thread =>
    simp only [step, free, Option.ite_none_right_eq_some, Option.some.injEq, Bool.and_eq_true,
      decide_eq_true_eq] at stepped
    exact .inr (.inr (.inr (.inr (.inr (.inl
      ⟨thread, rfl, stepped.1.1, stepped.1.2, stepped.2.symm⟩)))))
  | loop thread =>
    cases stage : sys.stage thread with
    | broadcasting released queued =>
      simp only [step, stage] at stepped
      -- The loop of the source goes on as long as somebody waits.
      by_cases empty : sys.waitQueue = []
      · rw [if_pos empty, Option.some.injEq] at stepped
        exact .inr (.inr (.inr (.inr (.inr (.inr (.inl
          ⟨thread, released, queued, rfl, stage, empty, stepped.symm⟩))))))
      · rw [if_neg empty, Option.some.injEq] at stepped
        exact .inr (.inr (.inr (.inr (.inr (.inr (.inr
          ⟨thread, released, queued, rfl, stage, empty, stepped.symm⟩))))))
    | _ => simp [step, stage] at stepped

omit [DecidableEq Thread] in
/-- No step of the lock begins a wait. -/
theorem ConditionStage.waiter_of_after {piece : LockEvent Thread} {stage : ConditionStage}
    {waiter : Nat} (waits : (stage.after piece).waiter = some waiter) :
    stage.waiter = some waiter := by
  cases piece <;> cases stage <;> first | exact waits | cases waits

omit [DecidableEq Thread] in
/-- Only the return from the last `Acquire` ends a wait. -/
theorem ConditionStage.after_waiter (piece : LockEvent Thread) {stage : ConditionStage}
    {waiter : Nat} (waits : stage.waiter = some waiter) :
    (stage.after piece).waiter = some waiter ∨
      (stage = .relocking waiter ∧ ∃ thread, piece = .hold thread) := by
  -- By cases on the piece and on the stage: only Acquire at the end of Wait changes the waiter.
  cases piece with
  | hold thread =>
    cases stage with
    | relocking other =>
      cases waits
      exact .inr ⟨rfl, thread, rfl⟩
    | _ => exact .inl waits
  | _ => cases stage <;> exact .inl waits

variable {sys next : ConditionSystem Thread}

omit [DecidableEq Thread] in
/-- Only a thread that has the lock, and is in none of the calls, can begin one. -/
theorem ConditionSystem.free_iff {thread : Thread} : sys.free thread = true ↔
    sys.lock.stage thread = .holding ∧ sys.stage thread = .body := by
  simp only [free, Bool.and_eq_true, decide_eq_true_eq]

/-- When `Signal` is called, and what it does. -/
theorem ConditionSystem.step_signal {thread : Thread}
    (stepped : sys.step (.signal thread) = some next) :
    sys.lock.stage thread = .holding ∧ sys.stage thread = .body ∧ next = sys.signal thread := by
  simp only [step, Option.ite_none_right_eq_some, Option.some.injEq, free_iff] at stepped
  exact ⟨stepped.1.1, stepped.1.2, stepped.2.symm⟩

/-- When `Wait` is called, and what it does first. -/
theorem ConditionSystem.step_wait {thread : Thread}
    (stepped : sys.step (.wait thread) = some next) :
    sys.lock.stage thread = .holding ∧ sys.stage thread = .body ∧ next = sys.wait thread := by
  simp only [step, Option.ite_none_right_eq_some, Option.some.injEq, free_iff] at stepped
  exact ⟨stepped.1.1, stepped.1.2, stepped.2.symm⟩

/-- With nobody queued, nobody is queued after a `Signal` either. -/
theorem ConditionSystem.signal_nil {thread : Thread} (empty : sys.waitQueue = []) :
    (sys.signal thread).waitQueue = [] := by
  unfold signal
  split
  · rw [empty]
    exact empty
  · exact empty

/-- `Wait` moves nobody but its caller. -/
theorem ConditionSystem.wait_stage {thread other : Thread} (different : other ≠ thread) :
    (sys.wait thread).stage other = sys.stage other := by
  unfold wait
  split
  · rw [move_stage_of_ne _ _ _ _ different]
    rfl
  · rfl

omit [DecidableEq Thread] in
/-- A new lock and condition satisfy the invariant. -/
theorem ConditionSystem.invariant_new : (new : ConditionSystem Thread).Invariant where
  locked := LockSystem.invariant_new
  sound := rfl
  order := rfl
  placed := fun _ => trivial
  owned := by simp [new]
  alone := by simp [new, ConditionStage.waiter]

omit [DecidableEq Thread] in
/-- Each semaphore is queued or released at most once, and not both. -/
theorem ConditionSystem.Invariant.nodup (inv : sys.Invariant) :
    sys.released.Nodup ∧ sys.waitQueue.Nodup ∧
      ∀ waiter ∈ sys.waitQueue, waiter ∉ sys.released := by
  have all : (sys.released ++ sys.waitQueue).Nodup := by
    rw [inv.order]
    exact List.nodup_range
  obtain ⟨released, queued, apart⟩ := List.nodup_append.mp all
  exact ⟨released, queued, fun waiter queued released => apart waiter released waiter queued rfl⟩

omit [DecidableEq Thread] in
/-- No semaphore is both queued and released. -/
theorem ConditionSystem.Invariant.apart (inv : sys.Invariant) {waiter : Nat}
    (queued : waiter ∈ sys.waitQueue) : waiter ∉ sys.released :=
  inv.nodup.2.2 waiter queued

omit [DecidableEq Thread] in
/-- A semaphore that a thread waits on has been made. -/
theorem ConditionSystem.Invariant.made (inv : sys.Invariant) {waiter : Nat}
    (known : waiter ∈ sys.released ∨ waiter ∈ sys.waitQueue) : waiter < sys.created := by
  rw [← List.mem_range, ← inv.order, List.mem_append]
  exact known

omit [DecidableEq Thread] in
/-- A thread inside `Wait` waits on a semaphore that is queued or released. -/
theorem ConditionSystem.Invariant.known (inv : sys.Invariant) {thread : Thread} {waiter : Nat}
    (waits : (sys.stage thread).waiter = some waiter) :
    waiter ∈ sys.released ∨ waiter ∈ sys.waitQueue := by
  -- The stage says where the semaphore is.
  have placed := inv.placed thread
  cases stage : sys.stage thread with
  -- There is no semaphore in these two stages.
  | body | broadcasting =>
    rw [stage] at waits
    cases waits
  -- In each of the others it is said to be queued or released.
  | unlocking other | waiting other | parked other | relocking other =>
    rw [stage] at waits placed
    cases waits
    simp only [Placed] at placed
    tauto

omit [DecidableEq Thread] in
/-- The wake-up of a sleeper by a `V` of the lock changes nothing that is said of the thread. -/
theorem ConditionSystem.Placed.relock {thread : Thread} {stage : ConditionStage}
    (placed : sys.Placed thread stage) (waitQueue : next.waitQueue = sys.waitQueue)
    (semaphores : next.semaphores = sys.semaphores)
    (released : next.released = sys.released)
    (moved : next.lock.stage thread = sys.lock.stage thread ∨
      (sys.lock.stage thread = .asleep ∧ next.lock.stage thread = .acquiring)) :
    next.Placed thread stage := by
  -- The lock is as it was for the thread, or the thread was asleep for it.
  rcases moved with same | ⟨asleep, acquiring⟩
  · cases stage with
    | body => trivial
    | _ => simpa only [Placed, waitQueue, semaphores, released, same] using placed
  · -- Only outside Wait, or in the Acquire at its end, does a thread sleep for the lock.
    cases stage <;> simp_all [Placed]

omit [DecidableEq Thread] in
/-- A step elsewhere changes nothing that is said of the thread. -/
theorem ConditionSystem.Placed.keep {thread : Thread} {stage : ConditionStage}
    (placed : sys.Placed thread stage) (lock : next.lock = sys.lock)
    (kept : ∀ waiter, stage.waiter = some waiter →
      (waiter ∈ sys.waitQueue → waiter ∈ next.waitQueue) ∧
      (waiter ∈ sys.released → waiter ∈ next.released) ∧
      next.semaphores waiter = sys.semaphores waiter)
    (loops : ∀ released queued, stage = .broadcasting released queued →
      (∃ done, queued = done ++ sys.waitQueue ∧ sys.released = released ++ done) →
      ∃ done, queued = done ++ next.waitQueue ∧ next.released = released ++ done) :
    next.Placed thread stage := by
  -- A stage says something of the lock and of its own waiter, and both are as they were.
  cases stage with
  | body => trivial
  -- Before P the semaphore is queued, with nobody in it.
  | unlocking waiter =>
    obtain ⟨queued, -, same⟩ := kept waiter rfl
    exact ⟨lock ▸ placed.1, queued placed.2.1, same.trans placed.2.2⟩
  | waiting waiter =>
    obtain ⟨queued, released, same⟩ := kept waiter rfl
    refine ⟨lock ▸ placed.1, ?_⟩
    -- It is queued or released, and stays so.
    rcases placed.2 with ⟨before, zero⟩ | ⟨before, one⟩
    · exact .inl ⟨queued before, same.trans zero⟩
    · exact .inr ⟨released before, same.trans one⟩
  -- Asleep in P the thread is the one in its semaphore.
  | parked waiter =>
    obtain ⟨queued, -, same⟩ := kept waiter rfl
    exact ⟨lock ▸ placed.1, queued placed.2.1, same.trans placed.2.2⟩
  -- After P the semaphore is released for good.
  | relocking waiter =>
    obtain ⟨-, released, -⟩ := kept waiter rfl
    exact ⟨lock ▸ placed.1, lock ▸ placed.2.1, released placed.2.2⟩
  -- The loop speaks of the queue as it was when it began.
  | broadcasting released queued =>
    exact ⟨lock ▸ placed.1, loops released queued rfl placed.2⟩

omit [DecidableEq Thread] in
/-- A step of the lock takes its thread to a stage where what is said of it holds. -/
theorem ConditionSystem.Placed.after {event : LockEvent Thread} {thread : Thread}
    {stage : ConditionStage} {lock : LockSystem Thread} {other : Thread → ConditionStage}
    (placed : sys.Placed thread stage) (allowed : stage.allows event = true)
    (moves : event.Moves (sys.lock.stage thread) (lock.stage thread)) :
    ({ sys with lock, stage := other } : ConditionSystem Thread).Placed thread
      (stage.after event) := by
  -- By cases on where the thread is in Wait, and on the piece of the lock.
  cases stage with
  | body => cases event <;> trivial
  -- Release goes on to V, and V to the wait.
  | unlocking waiter =>
    cases event with
    | release caller => exact ⟨.inr moves.2, placed.2⟩
    | v caller => exact ⟨moves.2, .inl placed.2⟩
    | acquire caller => cases allowed
    | p caller | hold caller => rcases placed.1 with there | there <;> simp_all [LockEvent.Moves]
  | waiting waiter | parked waiter =>
    -- The thread is outside the lock, and calls it only when P has returned.
    cases event with
    | acquire caller | release caller => cases allowed
    | p caller | hold caller | v caller => simp_all [LockEvent.Moves, Placed]
  -- The Acquire at the end goes through all its pieces.
  | relocking waiter =>
    obtain ⟨notHolding, notVacated, released⟩ := placed
    cases event with
    | acquire caller => exact ⟨by simp [moves.2], by simp [moves.2], released⟩
    | p caller =>
      rcases moves.2 with there | there <;> exact ⟨by simp [there], by simp [there], released⟩
    | hold caller => trivial
    | release caller => cases allowed
    | v caller => exact absurd moves.1 notVacated
  | broadcasting released queued =>
    -- The thread has the lock, and keeps it until the loop is done.
    cases event with
    | acquire caller | release caller => cases allowed
    | p caller | hold caller | v caller => simp_all [LockEvent.Moves, Placed]

/-- A thread that has the lock, and is not inside `Wait`, releases the front of the queue. -/
theorem ConditionSystem.Invariant.signal_cons (inv : sys.Invariant) {thread : Thread}
    (holding : sys.lock.stage thread = .holding) (outside : (sys.stage thread).waiter = none)
    {waiter : Nat} {rest : List Nat} (queue : sys.waitQueue = waiter :: rest) :
    ∃ owner, (sys.stage owner = .waiting waiter ∨ sys.stage owner = .parked waiter) ∧
      sys.lock.stage owner = .outside ∧
      sys.signal thread = ({ sys with
        waitQueue := rest
        released := sys.released ++ [waiter] }.store waiter { value := 1, queue := [] }).move
          owner (.waiting waiter) := by
  -- The front has an owner, and it is the stage of that thread that decides what V does.
  have queued : waiter ∈ sys.waitQueue := by simp [queue]
  have held : sys.lock.isHeldBy thread = true := by
    simp [LockSystem.isHeldBy, inv.locked.holder holding]
  obtain ⟨owner, waits⟩ := inv.owned waiter queued
  have placed := inv.placed owner
  cases stage : sys.stage owner with
  -- Nobody owns a semaphore in these stages.
  | body | broadcasting =>
    rw [stage] at waits
    cases waits
  | unlocking other =>
    -- Inside Release the owner still has the lock, and so it would be the signaller.
    rw [stage] at placed
    have past : (sys.lock.stage owner).pastP = true := by
      rcases placed.1 with holds | vacated
      · rw [holds]; rfl
      · rw [vacated]; rfl
    have same : owner = thread := inv.locked.exclusive past (by rw [holding]; rfl)
    rw [same, outside] at waits
    cases waits
  -- The owner is about to test the value, and nobody is in its semaphore yet.
  | waiting other =>
    rw [stage] at waits placed
    cases waits
    -- It is still queued, so it was not released.
    have zero : sys.semaphores waiter = { value := 0, queue := [] } := by
      rcases placed.2 with ⟨-, zero⟩ | ⟨released, -⟩
      · exact zero
      · exact absurd released (inv.apart queued)
    -- The V leaves a unit, and moves nobody.
    refine ⟨owner, .inl stage, placed.1, ?_⟩
    rw [move_stage _ owner _ (by exact stage)]
    simp only [signal, held, if_true, queue, zero, Semaphore.v]
    rfl
  -- The owner is asleep, and V wakes it.
  | parked other =>
    rw [stage] at waits placed
    cases waits
    refine ⟨owner, .inr stage, placed.1, ?_⟩
    simp only [signal, held, if_true, queue, placed.2.2, Semaphore.v]
    rfl
  -- The owner was released before, so its semaphore is off the queue.
  | relocking other =>
    rw [stage] at waits placed
    cases waits
    exact absurd placed.2.2 (inv.apart queued)

/-- A move that keeps the semaphore the thread waits on keeps who waits on which. -/
theorem ConditionSystem.move_waiter {thread : Thread} {stage : ConditionStage}
    (same : stage.waiter = (sys.stage thread).waiter) (other : Thread) :
    ((sys.move thread stage).stage other).waiter = (sys.stage other).waiter := by
  by_cases self : other = thread
  · subst self
    rw [move_stage_self, same]
  · rw [move_stage_of_ne _ _ _ _ self]

/-- Steps of the lock and of `P` keep the queue and who owns what is on it, and begin no wait. -/
theorem ConditionSystem.Invariant.inner_step (inv : sys.Invariant) {event : ConditionEvent Thread}
    (inner : (∃ piece, event = .lock piece) ∨ ∃ thread, event = .p thread)
    (stepped : sys.step event = some next) :
    next.waitQueue = sys.waitQueue ∧
    (∀ thread waiter, (next.stage thread).waiter = some waiter →
      (sys.stage thread).waiter = some waiter) ∧
    ∀ thread waiter, waiter ∈ sys.waitQueue →
      ((next.stage thread).waiter = some waiter ↔ (sys.stage thread).waiter = some waiter) := by
  -- P changes the stage, and keeps the semaphore that the thread waits on.
  have tested : ∀ {caller mark stage semaphore}, sys.stage caller = .waiting mark →
      stage.waiter = some mark → ∀ thread,
      (((sys.store mark semaphore).move caller stage).stage thread).waiter =
        (sys.stage thread).waiter := by
    intro caller mark stage semaphore waits keeps thread
    rw [move_waiter (by rw [store_stage, waits]; exact keeps), store_stage]
  -- By cases on the event: only the lock and P are meant here.
  rcases step_cases stepped with ⟨piece, lock, -, allowed, locked, rfl⟩ | ⟨_, rfl, -⟩ |
    ⟨caller, mark, -, stage, -, rfl⟩ | ⟨caller, mark, -, stage, -, rfl⟩ | ⟨_, rfl, -⟩ |
    ⟨_, rfl, -⟩ | ⟨_, _, _, rfl, -⟩ | ⟨_, _, _, rfl, -⟩
  case inl =>
    -- The queue is the condition's own, which no step of the lock touches.
    refine ⟨rfl, fun thread waiter => ?_, fun thread waiter queued => ?_⟩
    · by_cases same : thread = piece.thread
      · subst same
        rw [move_stage_self]
        exact ConditionStage.waiter_of_after
      · rw [move_stage_of_ne _ _ _ _ same]
        exact id
    · by_cases same : thread = piece.thread
      · -- Only the return from Wait ends a wait, and by then the semaphore is off the queue.
        subst same
        rw [move_stage_self]
        refine ⟨ConditionStage.waiter_of_after, fun waits => ?_⟩
        refine (ConditionStage.after_waiter piece waits).resolve_right fun ⟨stage, _⟩ => ?_
        have placed := inv.placed piece.thread
        rw [stage] at placed
        exact inv.apart queued placed.2.2
      · rw [move_stage_of_ne _ _ _ _ same]
  -- Both outcomes of the test in P are of the kind above.
  case inr.inr.inl =>
    exact ⟨rfl, fun thread _ waits => (tested stage rfl thread).symm.trans waits,
      fun thread _ _ => by rw [tested stage rfl thread]⟩
  case inr.inr.inr.inl =>
    exact ⟨rfl, fun thread _ waits => (tested stage rfl thread).symm.trans waits,
      fun thread _ _ => by rw [tested stage rfl thread]⟩
  -- The other events are none of the two.
  all_goals simp at inner

/-- A step of the lock keeps the invariant. -/
theorem ConditionSystem.Invariant.lock_step (inv : sys.Invariant) {event : LockEvent Thread}
    {lock : LockSystem Thread} (allowed : (sys.stage event.thread).allows event = true)
    (stepped : sys.lock.step event = some lock) :
    ({ sys with lock }.move event.thread
      ((sys.stage event.thread).after event)).Invariant := by
  -- The lock keeps its own invariant.
  have locked : lock.Invariant := LockSystem.invariant_step inv.locked stepped
  have inner : sys.step (.lock event) = some ({ sys with lock }.move event.thread
      ((sys.stage event.thread).after event)) := by
    simp only [step, allowed, if_true, stepped, Option.map_some]
  obtain ⟨-, waits, owns⟩ := inv.inner_step (.inl ⟨event, rfl⟩) inner
  -- The thread that moves goes to its next stage, and the others keep theirs.
  refine ⟨locked, inv.sound, inv.order, fun thread => ?_, fun waiter queued => ?_,
    fun first second => inv.alone (waits _ _ first) (waits _ _ second)⟩
  · -- What holds of the thread that moves comes from its step.
    by_cases same : thread = event.thread
    · subst same
      rw [move_stage_self]
      exact (inv.placed event.thread).after allowed (inv.locked.step_own stepped)
    · -- The others may be woken inside the lock, and no more.
      rw [move_stage_of_ne _ _ _ _ same]
      exact (inv.placed thread).relock rfl rfl rfl (inv.locked.step_stage stepped same)
  · -- Everybody owns what they owned.
    obtain ⟨owner, mine⟩ := inv.owned waiter queued
    exact ⟨owner, (owns owner waiter queued).mpr mine⟩

/-- Calling `Wait` keeps the invariant. -/
theorem ConditionSystem.Invariant.wait_step (inv : sys.Invariant) {thread : Thread}
    (holding : sys.lock.stage thread = .holding) (stage : sys.stage thread = .body) :
    (sys.wait thread).Invariant := by
  -- The caller has the lock, so the assertion holds.
  have held : sys.lock.isHeldBy thread = true := by
    simp [LockSystem.isHeldBy, inv.locked.holder holding]
  simp only [wait, held, if_true]
  -- The number is new, so nobody waits on it yet.
  have fresh : ∀ {other waiter}, (sys.stage other).waiter = some waiter → waiter ≠ sys.created :=
    fun waits same => absurd (inv.made (inv.known waits)) (by omega)
  refine ⟨inv.locked, inv.sound, ?_, fun other => ?_, fun waiter queued => ?_, ?_⟩
  · -- The new number is the next one.
    simp only [move_released, move_waitQueue, move_created, store_released, store_waitQueue,
      store_created]
    rw [← List.append_assoc, inv.order, List.range_succ]
  · -- The caller is in Release now, with its semaphore queued and empty.
    by_cases same : other = thread
    · subst same
      rw [move_stage_self]
      exact ⟨.inl holding, by simp, by simp [Semaphore.new]⟩
    · -- The others keep their semaphores, since theirs are not the new one.
      rw [move_stage_of_ne _ _ _ _ same]
      refine (inv.placed other).keep rfl (fun waiter waits => ?_) (fun released queued loops _ => ?_)
      · have different := fresh waits
        exact ⟨fun queued => by simp [queued], id, by simp [different]⟩
      · -- Nobody else has the lock, so nobody else is in Broadcast.
        have placed := inv.placed other
        rw [loops] at placed
        exact absurd (inv.locked.exclusive (by rw [placed.1]; rfl) (by rw [holding]; rfl)) same
  · -- The owner of an old semaphore is not the caller; the new one is the caller's.
    rcases List.mem_append.mp queued with before | new
    · obtain ⟨owner, owns⟩ := inv.owned waiter before
      have different : owner ≠ thread := fun same => by
        rw [same, stage] at owns
        cases owns
      exact ⟨owner, by rw [move_stage_of_ne _ _ _ _ different]; exact owns⟩
    · rw [List.mem_singleton.mp new]
      exact ⟨thread, by rw [move_stage_self]; rfl⟩
  · -- Two threads with one semaphore: it is an old one for both, or the new one for both.
    intro first second waiter waits also
    by_cases one : first = thread
    · by_cases two : second = thread
      · rw [one, two]
      · rw [one, move_stage_self] at waits
        rw [move_stage_of_ne _ _ _ _ two] at also
        cases waits
        exact absurd rfl (fresh also)
    · rw [move_stage_of_ne _ _ _ _ one] at waits
      by_cases two : second = thread
      · rw [two, move_stage_self] at also
        cases also
        exact absurd rfl (fresh waits)
      · rw [move_stage_of_ne _ _ _ _ two] at also
        exact inv.alone waits also

/-- One test of the value inside `Wait` keeps the invariant. -/
theorem ConditionSystem.Invariant.p_step (inv : sys.Invariant) {thread : Thread} {waiter : Nat}
    {stage : ConditionStage} {semaphore : Semaphore Thread}
    (waits : sys.stage thread = .waiting waiter) (keeps : stage.waiter = some waiter)
    (placed : (sys.store waiter semaphore).Placed thread stage) :
    ((sys.store waiter semaphore).move thread stage).Invariant := by
  -- The thread keeps its semaphore, in whatever stage it is after the test.
  have mine : (sys.stage thread).waiter = some waiter := by rw [waits]; rfl
  have same := (sys.store waiter semaphore).move_waiter (keeps.trans mine.symm)
  refine ⟨inv.locked, inv.sound, inv.order, fun other => ?_, fun queued member => ?_, ?_⟩
  · -- The test left the thread where what is said of it holds.
    by_cases self : other = thread
    · subst self
      rw [move_stage_self]
      exact placed
    · rw [move_stage_of_ne _ _ _ _ self]
      -- Nobody else waits on this semaphore.
      have apart : ∀ {mark}, (sys.stage other).waiter = some mark → mark ≠ waiter :=
        fun waits same => self (inv.alone (same ▸ waits) mine)
      exact (inv.placed other).keep rfl
        (fun mark waits => ⟨id, id, store_semaphores_of_ne _ _ _ _ (apart waits)⟩)
        (fun _ _ _ loops => loops)
  · -- The queue and its owners are as they were.
    obtain ⟨owner, owns⟩ := inv.owned queued member
    exact ⟨owner, by rw [same]; exact owns⟩
  · -- No semaphore changed its owner.
    intro first second mark one two
    rw [same] at one two
    exact inv.alone one two

/-- A `Signal`, also one of those in `Broadcast`, keeps the invariant. -/
theorem ConditionSystem.Invariant.signal_step (inv : sys.Invariant) {thread : Thread}
    (holding : sys.lock.stage thread = .holding) (outside : (sys.stage thread).waiter = none) :
    (sys.signal thread).Invariant := by
  cases queue : sys.waitQueue with
  -- Nobody waits, and the call does nothing.
  | nil =>
    have held : sys.lock.isHeldBy thread = true := by
      simp [LockSystem.isHeldBy, inv.locked.holder holding]
    simpa only [signal, held, if_true, queue] using inv
  | cons waiter rest =>
    obtain ⟨owner, waits, unlocked, result⟩ := inv.signal_cons holding outside queue
    rw [result]
    -- The owner of the front keeps its semaphore, and is on its way through P.
    have mine : (sys.stage owner).waiter = some waiter := by
      rcases waits with waits | waits <;> rw [waits] <;> rfl
    have same := ({ sys with
      waitQueue := rest
      released := sys.released ++ [waiter] }.store waiter { value := 1, queue := [] }).move_waiter
        (show (ConditionStage.waiting waiter).waiter = _ from mine.symm)
    refine ⟨inv.locked, inv.sound, ?_, fun other => ?_, fun queued member => ?_, ?_⟩
    · -- The front moves from the queue to the record of releases.
      simp only [move_released, move_waitQueue, move_created, store_released, store_waitQueue,
        store_created]
      rw [← inv.order, queue, List.append_assoc, List.singleton_append]
    · -- The owner has left the lock, and finds the unit of its semaphore.
      by_cases self : other = owner
      · subst self
        rw [move_stage_self]
        exact ⟨unlocked, .inr ⟨by simp, by simp⟩⟩
      · -- The others own other semaphores.
        rw [move_stage_of_ne _ _ _ _ self]
        have apart : ∀ {mark}, (sys.stage other).waiter = some mark → mark ≠ waiter :=
          fun waits same => self (inv.alone (same ▸ waits) mine)
        refine (inv.placed other).keep rfl (fun mark waits => ?_) (fun released queued _ loops => ?_)
        · have different := apart waits
          refine ⟨fun before => ?_, fun before => by simp [before], ?_⟩
          · rw [queue, List.mem_cons] at before
            exact before.resolve_left different
          · exact store_semaphores_of_ne _ _ _ _ different
        · -- The loop has released one more of those that were queued when it began.
          obtain ⟨done, split, record⟩ := loops
          refine ⟨done ++ [waiter], ?_, ?_⟩
          · simp [split, queue]
          · simp [record]
    · -- The rest of the queue has the owners it had.
      obtain ⟨owner, owns⟩ := inv.owned queued (by rw [queue]; exact List.mem_cons_of_mem _ member)
      exact ⟨owner, by rw [same]; exact owns⟩
    · -- No semaphore changed its owner.
      intro first second mark one two
      rw [same] at one two
      exact inv.alone one two

/-- Entering or leaving the loop of `Broadcast` keeps the invariant. -/
theorem ConditionSystem.Invariant.loop_step (inv : sys.Invariant) {thread : Thread}
    {stage : ConditionStage} (outside : (sys.stage thread).waiter = none)
    (stays : stage.waiter = none) (placed : sys.Placed thread stage) :
    (sys.move thread stage).Invariant := by
  have same := sys.move_waiter (stays.trans outside.symm)
  -- The loop begins and ends without a waiter.
  refine ⟨inv.locked, inv.sound, inv.order, fun other => ?_, fun queued member => ?_, ?_⟩
  · -- The thread itself is where it is said to be.
    by_cases self : other = thread
    · subst self
      rw [move_stage_self]
      exact placed.keep rfl (fun _ _ => ⟨id, id, rfl⟩) (fun _ _ _ loops => loops)
    · rw [move_stage_of_ne _ _ _ _ self]
      exact (inv.placed other).keep rfl (fun _ _ => ⟨id, id, rfl⟩) (fun _ _ _ loops => loops)
  · -- The queue and its owners are as they were.
    obtain ⟨owner, owns⟩ := inv.owned queued member
    exact ⟨owner, by rw [same]; exact owns⟩
  · intro first second mark one two
    rw [same] at one two
    exact inv.alone one two

/-- Every step keeps the invariant. -/
theorem ConditionSystem.invariant_step {event : ConditionEvent Thread} (inv : sys.Invariant)
    (stepped : sys.step event = some next) : next.Invariant := by
  -- By cases on the step, each with its own lemma.
  rcases step_cases stepped with ⟨piece, lock, -, allowed, locked, rfl⟩ |
    ⟨thread, -, holding, stage, rfl⟩ | ⟨thread, waiter, -, stage, positive, rfl⟩ |
    ⟨thread, waiter, -, stage, zero, rfl⟩ | ⟨thread, -, holding, stage, rfl⟩ |
    ⟨thread, -, holding, stage, rfl⟩ | ⟨thread, released, queued, -, stage, empty, rfl⟩ |
    ⟨thread, released, queued, -, stage, waits, rfl⟩
  · -- The steps of the lock, and the call of Wait.
    exact inv.lock_step allowed locked
  · exact inv.wait_step holding stage
  · -- A unit is there only because V was called.
    have placed := inv.placed thread
    rw [stage] at placed
    refine inv.p_step stage rfl ⟨?_, ?_, ?_⟩
    · rw [store_lock, placed.1]
      simp
    · rw [store_lock, placed.1]
      simp
    · rcases placed.2 with ⟨-, empty⟩ | ⟨released, -⟩
      · rw [empty] at positive
        exact absurd rfl positive
      · exact released
  · -- No unit is there, and so V was not called.
    have placed := inv.placed thread
    rw [stage] at placed
    rcases placed.2 with ⟨queued, empty⟩ | ⟨-, one⟩
    · exact inv.p_step stage rfl ⟨placed.1, queued, by simp [empty]⟩
    · rw [one] at zero
      cases zero
  · -- Signal, and the beginning and the end of Broadcast.
    exact inv.signal_step holding (by rw [stage]; rfl)
  · exact inv.loop_step (by rw [stage]; rfl) rfl ⟨holding, [], rfl, by simp⟩
  · exact inv.loop_step (by rw [stage]; rfl) rfl trivial
  · -- A turn of the loop is a Signal.
    have placed := inv.placed thread
    rw [stage] at placed
    exact inv.signal_step placed.1 (by rw [stage]; rfl)

/-- Whatever the threads do, the invariant of the condition holds. -/
theorem ConditionSystem.invariant_replay {events : List (ConditionEvent Thread)}
    (reached : replay ConditionSystem.step .new events = some sys) : sys.Invariant :=
  replay_invariant (fun _ _ _ => invariant_step) invariant_new reached

/-- The semaphore is queued, and `V` was never called on it. -/
def ConditionSystem.StillQueued (sys : ConditionSystem Thread) (waiter : Nat) : Prop :=
  waiter ∈ sys.waitQueue ∧ sys.released.count waiter = 0

/-- `V` was called once, and the thread is at its `P`, which will go through, or past it. -/
def ConditionSystem.ReleasedOnce (sys : ConditionSystem Thread) (thread : Thread)
    (waiter : Nat) : Prop :=
  sys.released.count waiter = 1 ∧
    (sys.stage thread = .waiting waiter ∧ (sys.semaphores waiter).value = 1 ∨
      sys.stage thread = .relocking waiter)

/-- The step releases one thread: the one whose semaphore was made first of those queued. -/
def ConditionSystem.ReleasesLongest (sys next : ConditionSystem Thread) : Prop :=
  ∃ front rest owner, sys.waitQueue = front :: rest ∧ (∀ later ∈ rest, front < later) ∧
    next.waitQueue = rest ∧ next.released = sys.released ++ [front] ∧
    (sys.stage owner = .waiting front ∨ sys.stage owner = .parked front) ∧
    next.stage owner = .waiting front ∧ (next.semaphores front).value = 1 ∧
    ∀ other, other ≠ owner → next.stage other = sys.stage other

omit [DecidableEq Thread] in
/-- A waiting thread is in one of the two situations and not in the other. -/
theorem ConditionSystem.Invariant.situation (inv : sys.Invariant) {thread : Thread} {waiter : Nat}
    (waits : (sys.stage thread).waiter = some waiter) :
    Xor (sys.StillQueued waiter) (sys.ReleasedOnce thread waiter) := by
  rcases inv.known waits with released | queued
  · -- Released: the thread cannot be in a stage in which its semaphore is queued.
    have once : sys.released.count waiter = 1 := List.count_eq_one_of_mem inv.nodup.1 released
    refine .inr ⟨⟨once, ?_⟩, fun still => by have := still.2; omega⟩
    have placed := inv.placed thread
    cases stage : sys.stage thread with
    -- In these stages a thread does not wait.
    | body | broadcasting =>
      rw [stage] at waits
      cases waits
    -- Its semaphore would be queued.
    | unlocking other | parked other =>
      rw [stage] at waits placed
      cases waits
      exact absurd released (inv.apart placed.2.1)
    -- The semaphore has been given its unit.
    | waiting other =>
      rw [stage] at waits placed
      cases waits
      rcases placed.2 with ⟨queued, -⟩ | ⟨-, one⟩
      · exact absurd released (inv.apart queued)
      · exact .inl ⟨rfl, by rw [one]⟩
    -- The unit has been taken.
    | relocking other =>
      rw [stage] at waits
      cases waits
      exact .inr rfl
  · -- Queued: then it is not released.
    have never : sys.released.count waiter = 0 := List.count_eq_zero.mpr (inv.apart queued)
    exact .inl ⟨⟨queued, never⟩, fun once => by have := once.1; omega⟩

/-- A signaller with a queue to serve releases its front, which has waited longest. -/
theorem ConditionSystem.Invariant.releases (inv : sys.Invariant) {thread : Thread}
    (holding : sys.lock.stage thread = .holding) (outside : (sys.stage thread).waiter = none)
    (waits : sys.waitQueue ≠ []) : sys.ReleasesLongest (sys.signal thread) := by
  -- The front of the queue has an owner, and `signal` acts on that thread.
  obtain ⟨front, rest, queue⟩ := List.exists_cons_of_ne_nil waits
  obtain ⟨owner, stage, -, result⟩ := inv.signal_cons holding outside queue
  -- The waiters are numbered as they come, and released in that order.
  have sorted : (sys.released ++ sys.waitQueue).Pairwise (· < ·) := by
    rw [inv.order]
    exact List.pairwise_lt_range
  rw [queue] at sorted
  have later := (List.pairwise_cons.mp (List.pairwise_append.mp sorted).2.1).1
  refine ⟨front, rest, owner, queue, later, ?_, ?_, stage, ?_, ?_, fun other different => ?_⟩
  · -- The queue loses its front, and the record gets it.
    rw [result]
    rfl
  · rw [result]
    rfl
  · -- The owner tests the value again, and finds a unit.
    rw [result, move_stage_self]
  · rw [result, move_semaphores, store_semaphores_self]
  · -- The others stay where they are.
    rw [result, move_stage_of_ne _ _ _ _ different]
    rfl

/-- A `Signal` takes nobody out of `Wait`. -/
theorem ConditionSystem.Invariant.signal_waiter (inv : sys.Invariant) {thread : Thread}
    (holding : sys.lock.stage thread = .holding) (outside : (sys.stage thread).waiter = none)
    (other : Thread) : ((sys.signal thread).stage other).waiter = (sys.stage other).waiter := by
  -- With an empty queue nothing happens, and else the owner of the front stays in Wait.
  cases queue : sys.waitQueue with
  | nil =>
    have held : sys.lock.isHeldBy thread = true := by
      simp [LockSystem.isHeldBy, inv.locked.holder holding]
    simp only [signal, held, if_true, queue]
  | cons front rest =>
    obtain ⟨owner, stage, -, result⟩ := inv.signal_cons holding outside queue
    rw [result, move_waiter]
    · rfl
    · rcases stage with waits | waits <;> simp [waits, ConditionStage.waiter]

/-- A thread leaves `Wait` only as the holder of the lock. -/
theorem ConditionSystem.Invariant.returns (inv : sys.Invariant) {event : ConditionEvent Thread}
    (stepped : sys.step event = some next) {thread : Thread} {waiter : Nat}
    (inside : (sys.stage thread).waiter = some waiter) (left : (next.stage thread).waiter = none) :
    next.lock.stage thread = .holding ∧ next.lock.lockHolder = some thread := by
  have after := invariant_step inv stepped
  suffices holding : next.lock.stage thread = .holding from
    ⟨holding, after.locked.holder holding⟩
  -- Every step but the return from Acquire keeps the semaphore that the thread waits on.
  have kept : (next.stage thread).waiter ≠ (sys.stage thread).waiter := by
    rw [left, inside]
    simp
  rcases step_cases stepped with ⟨piece, lock, -, allowed, locked, rfl⟩ |
    ⟨caller, -, holding, stage, rfl⟩ | ⟨caller, mark, -, stage, -, rfl⟩ |
    ⟨caller, mark, -, stage, -, rfl⟩ | ⟨caller, -, holding, stage, rfl⟩ |
    ⟨caller, -, -, stage, rfl⟩ | ⟨caller, released, queued, -, stage, -, rfl⟩ |
    ⟨caller, released, queued, -, stage, -, rfl⟩
  · -- The return from Acquire takes the lock; the other pieces end no wait.
    by_cases same : thread = piece.thread
    · subst same
      rw [move_stage_self] at left
      rcases ConditionStage.after_waiter piece inside with waits | ⟨-, caller, rfl⟩
      · rw [waits] at left
        cases left
      · exact (inv.locked.step_own locked).2
    · rw [move_stage_of_ne _ _ _ _ same] at kept
      exact absurd rfl kept
  · -- A thread that calls Wait was in none, and moves nobody else.
    have different : thread ≠ caller := fun same => by
      rw [same, stage] at inside
      cases inside
    exact absurd (by rw [wait_stage different]) kept
  · -- A test in P keeps the semaphore, whichever way it goes.
    exact absurd (move_waiter (by rw [store_stage, stage]; rfl) thread) kept
  · exact absurd (move_waiter (by rw [store_stage, stage]; rfl) thread) kept
  · -- Neither Signal nor Broadcast takes anybody out of Wait.
    exact absurd (inv.signal_waiter holding (by rw [stage]; rfl) thread) kept
  · exact absurd (move_waiter (by rw [stage]; rfl) thread) kept
  · exact absurd (move_waiter (by rw [stage]; rfl) thread) kept
  · have placed := inv.placed caller
    rw [stage] at placed
    exact absurd (inv.signal_waiter placed.1 (by rw [stage]; rfl) thread) kept

/--
No signal of a condition variable is lost, in any interleaving of the calls.

A thread in `Wait` is queued or released, never both; a `Signal` releases the thread that has waited
longest; a `Broadcast`, which notes the queue when it begins, has released just that queue when it
returns; and a thread comes back from `Wait` with the lock.
-/
theorem condition_noLostSignal (events : List (ConditionEvent Thread))
    (sys : ConditionSystem Thread)
    (reached : replay ConditionSystem.step .new events = some sys) :
    (∀ thread waiter, (sys.stage thread).waiter = some waiter →
      Xor (sys.StillQueued waiter) (sys.ReleasedOnce thread waiter)) ∧
    (∀ thread next, sys.step (.signal thread) = some next → sys.waitQueue ≠ [] →
      sys.ReleasesLongest next) ∧
    (∀ thread next, sys.step (.broadcast thread) = some next →
      next.stage thread = .broadcasting sys.released sys.waitQueue ∧
      next.released = sys.released) ∧
    (∀ thread released queued, sys.stage thread = .broadcasting released queued →
      (∃ done, queued = done ++ sys.waitQueue ∧ sys.released = released ++ done) ∧
      ∀ next, sys.step (.loop thread) = some next →
        sys.waitQueue ≠ [] ∧ sys.ReleasesLongest next ∨
        next.stage thread = .body ∧ next.waitQueue = [] ∧ next.released = released ++ queued) ∧
    (∀ event next thread waiter, sys.step event = some next →
      (sys.stage thread).waiter = some waiter → (next.stage thread).waiter = none →
      next.lock.stage thread = .holding ∧ next.lock.lockHolder = some thread) ∧
    sys.aborted = false ∧ sys.lock.aborted = false := by
  -- Everything is read off the invariant of the state.
  have inv : sys.Invariant := ConditionSystem.invariant_replay reached
  refine ⟨fun thread waiter waits => inv.situation waits, fun thread next stepped waits => ?_,
    fun thread next stepped => ?_, fun thread released queued stage => ?_,
    fun event next thread waiter stepped => inv.returns stepped, inv.sound, inv.locked.sound⟩
  · -- A Signal with somebody queued.
    obtain ⟨holding, stage, rfl⟩ := ConditionSystem.step_signal stepped
    exact inv.releases holding (by rw [stage]; rfl) waits
  · -- A Broadcast writes down what is queued and what was released.
    simp only [ConditionSystem.step, Option.ite_none_right_eq_some, Option.some.injEq] at stepped
    rw [← stepped.2]
    exact ⟨ConditionSystem.move_stage_self _ _ _, rfl⟩
  · -- A turn of its loop: either one more is released, or everyone is.
    have placed := inv.placed thread
    rw [stage] at placed
    obtain ⟨holding, done, split, record⟩ := placed
    refine ⟨⟨done, split, record⟩, fun next stepped => ?_⟩
    simp only [ConditionSystem.step, stage] at stepped
    by_cases empty : sys.waitQueue = []
    · -- The loop ends when everybody who was queued has been released.
      rw [if_pos empty, Option.some.injEq] at stepped
      rw [← stepped]
      refine .inr ⟨ConditionSystem.move_stage_self _ _ _, empty, ?_⟩
      rw [ConditionSystem.move_released, record, split, empty, List.append_nil]
    · -- Somebody is queued, and the turn is a Signal.
      rw [if_neg empty, Option.some.injEq] at stepped
      rw [← stepped]
      exact .inl ⟨empty, inv.releases holding (by rw [stage]; rfl) empty⟩

/-- A thread that has given up the lock, and is not asleep yet, is signalled and does not sleep. -/
theorem condition_noLostSignal_early :
    ∃ sys : ConditionSystem (Fin 2),
      replay ConditionSystem.step .new
        [.lock (.acquire 0), .lock (.p 0), .lock (.hold 0), .wait 0, .lock (.release 0),
          .lock (.v 0), .lock (.acquire 1), .lock (.p 1), .lock (.hold 1), .signal 1, .p 0] =
        some sys ∧
      sys.stage 0 = .relocking 0 ∧ sys.aborted = false := by
  refine ⟨_, rfl, rfl, ?_⟩
  exact (condition_noLostSignal [.lock (.acquire 0), .lock (.p 0), .lock (.hold 0), .wait 0,
    .lock (.release 0), .lock (.v 0), .lock (.acquire 1), .lock (.p 1), .lock (.hold 1), .signal 1,
    .p 0] _ rfl).2.2.2.2.2.1

end

end Nachos
