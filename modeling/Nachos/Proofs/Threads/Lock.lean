import Nachos.Threads.Lock

/-! Mutual exclusion: what every interleaving of `Acquire` and `Release` keeps. -/

namespace Nachos

section

variable {Thread : Type} [DecidableEq Thread]

/-- What a step can do: one line for each way a piece can go. -/
theorem LockSystem.step_cases {sys next : LockSystem Thread} {event : LockEvent Thread}
    (stepped : sys.step event = some next) :
    (∃ thread, event = .acquire thread ∧ sys.stage thread = .outside ∧
      next = sys.move thread .acquiring) ∨
    (∃ thread, event = .p thread ∧ sys.stage thread = .acquiring ∧ sys.semaphore.value ≠ 0 ∧
      next = { sys with semaphore :=
        { sys.semaphore with value := sys.semaphore.value - 1 } }.move thread .granted) ∨
    (∃ thread, event = .p thread ∧ sys.stage thread = .acquiring ∧ sys.semaphore.value = 0 ∧
      next = { sys with semaphore :=
        { sys.semaphore with queue := sys.semaphore.queue ++ [thread] } }.move thread .asleep) ∨
    (∃ thread, event = .hold thread ∧ sys.stage thread = .granted ∧
      next = { sys with lockHolder := some thread }.move thread .holding) ∨
    (∃ thread, event = .release thread ∧ sys.stage thread = .holding ∧
      sys.lockHolder = some thread ∧
      next = { sys with lockHolder := none }.move thread .vacated) ∨
    (∃ thread, event = .release thread ∧ sys.stage thread = .holding ∧
      sys.lockHolder ≠ some thread ∧ next = { sys with aborted := true }) ∨
    (∃ thread, event = .v thread ∧ sys.stage thread = .vacated ∧ sys.semaphore.queue = [] ∧
      next = { sys with semaphore :=
        { sys.semaphore with value := sys.semaphore.value + 1 } }.move thread .outside) ∨
    (∃ thread woken rest, event = .v thread ∧ sys.stage thread = .vacated ∧
      sys.semaphore.queue = woken :: rest ∧
      next = ({ sys with semaphore :=
        { value := sys.semaphore.value + 1, queue := rest } }.move woken .acquiring).move
          thread .outside) := by
  -- By cases on the event, and then on the branch that its definition takes.
  cases event with
  | acquire thread =>
    -- The stage is checked and nothing else.
    simp only [step, Option.ite_none_right_eq_some, Option.some.injEq] at stepped
    exact .inl ⟨thread, rfl, stepped.1, stepped.2.symm⟩
  | p thread =>
    simp only [step, Option.ite_none_right_eq_some] at stepped
    obtain ⟨acquiring, stepped⟩ := stepped
    -- The thread goes to sleep at 0, and else takes one.
    by_cases zero : sys.semaphore.value = 0
    · simp only [Semaphore.test, if_pos zero, Option.some.injEq] at stepped
      exact .inr (.inr (.inl ⟨thread, rfl, acquiring, zero, stepped.symm⟩))
    · simp only [Semaphore.test, if_neg zero, Option.some.injEq] at stepped
      exact .inr (.inl ⟨thread, rfl, acquiring, zero, stepped.symm⟩)
  | hold thread =>
    -- The write to `lockHolder` has no branch.
    simp only [step, Option.ite_none_right_eq_some, Option.some.injEq] at stepped
    exact .inr (.inr (.inr (.inl ⟨thread, rfl, stepped.1, stepped.2.symm⟩)))
  | release thread =>
    simp only [step, Option.ite_none_right_eq_some] at stepped
    obtain ⟨holding, stepped⟩ := stepped
    -- The assertion of the source stops a release by another thread.
    by_cases held : sys.lockHolder = some thread
    · simp only [isHeldBy, held, decide_true, if_true, Option.some.injEq] at stepped
      exact .inr (.inr (.inr (.inr (.inl ⟨thread, rfl, holding, held, stepped.symm⟩))))
    · simp only [isHeldBy, held, decide_false, Bool.false_eq_true, if_false,
        Option.some.injEq] at stepped
      exact .inr (.inr (.inr (.inr (.inr (.inl ⟨thread, rfl, holding, held, stepped.symm⟩)))))
  | v thread =>
    simp only [step, Option.ite_none_right_eq_some] at stepped
    obtain ⟨vacated, stepped⟩ := stepped
    -- A thread that is woken tests the value again.
    cases queue : sys.semaphore.queue with
    | nil =>
      -- Nobody waits: the unit is free.
      simp only [Semaphore.v, queue, Option.some.injEq] at stepped
      refine .inr (.inr (.inr (.inr (.inr (.inr (.inl ⟨thread, rfl, vacated, rfl, ?_⟩))))))
      rw [← stepped, ← queue]
    | cons woken rest =>
      -- The front of the queue is woken.
      simp only [Semaphore.v, queue, Option.some.injEq] at stepped
      exact .inr (.inr (.inr (.inr (.inr (.inr (.inr
        ⟨thread, woken, rest, rfl, vacated, rfl, stepped.symm⟩))))))

/-- What every interleaving of `Acquire` and `Release` keeps. -/
structure LockSystem.Invariant (sys : LockSystem Thread) : Prop where
  sound : sys.aborted = false
  queued_iff : ∀ thread, thread ∈ sys.semaphore.queue ↔ sys.stage thread = .asleep
  queue_nodup : sys.semaphore.queue.Nodup
  -- The unit of the semaphore is free, or the one thread past its P has it.
  unit : (sys.semaphore.value = 1 ∧ sys.lockHolder = none ∧
      ∀ thread, (sys.stage thread).pastP = false) ∨
    ∃ owner, sys.semaphore.value = 0 ∧
      sys.lockHolder = (if sys.stage owner = .holding then some owner else none) ∧
      ∀ thread, (sys.stage thread).pastP = true ↔ thread = owner

variable {sys next : LockSystem Thread}

omit [DecidableEq Thread] in
/-- A new lock satisfies the invariant. -/
theorem LockSystem.invariant_new : (new : LockSystem Thread).Invariant where
  sound := rfl
  queued_iff := by simp [new, Semaphore.new]
  queue_nodup := List.nodup_nil
  unit := .inl ⟨rfl, rfl, fun _ => rfl⟩

omit [DecidableEq Thread] in
/-- A thread past its `P` is alone there, and the semaphore has no unit left. -/
theorem LockSystem.Invariant.owner (inv : sys.Invariant) {thread : Thread} {stage : LockStage}
    (placed : sys.stage thread = stage) (past : stage.pastP = true) :
    sys.semaphore.value = 0 ∧
      sys.lockHolder = (if stage = .holding then some thread else none) ∧
      ∀ other, (sys.stage other).pastP = true ↔ other = thread := by
  subst placed
  rcases inv.unit with ⟨-, -, nobody⟩ | ⟨owner, zero, holder, alone⟩
  · simp [nobody thread] at past
  · have same : thread = owner := (alone thread).mp past
    subst same
    exact ⟨zero, holder, alone⟩

omit [DecidableEq Thread] in
/-- Who holds the lock is its holder. -/
theorem LockSystem.Invariant.holder (inv : sys.Invariant) {thread : Thread}
    (holding : sys.stage thread = .holding) : sys.lockHolder = some thread :=
  (inv.owner holding rfl).2.1

omit [DecidableEq Thread] in
/-- Two threads past their `P` are one. -/
theorem LockSystem.Invariant.exclusive (inv : sys.Invariant) {thread other : Thread}
    (past : (sys.stage thread).pastP = true) (also : (sys.stage other).pastP = true) :
    thread = other :=
  ((inv.owner rfl also).2.2 thread).mp past

/-- Only `V` moves a thread other than the one that takes the step, and it wakes that thread. -/
theorem LockSystem.step_stage {event : LockEvent Thread} (stepped : sys.step event = some next)
    {other : Thread} (different : other ≠ event.thread) :
    next.stage other = sys.stage other ∨
      (other ∈ sys.semaphore.queue ∧ next.stage other = .acquiring) := by
  rcases step_cases stepped with ⟨thread, rfl, -, rfl⟩ | ⟨thread, rfl, -, -, rfl⟩ |
    ⟨thread, rfl, -, -, rfl⟩ | ⟨thread, rfl, -, rfl⟩ | ⟨thread, rfl, -, -, rfl⟩ |
    ⟨thread, rfl, -, -, rfl⟩ | ⟨thread, rfl, -, -, rfl⟩ | ⟨thread, woken, rest, rfl, -, queue, rfl⟩
  case inr.inr.inr.inr.inr.inr.inr =>
    -- The front of the queue is the one thread that V wakes.
    have apart : other ≠ thread := different
    by_cases same : other = woken
    · subst same
      exact .inr ⟨by simp [queue], by rw [move_stage_of_ne _ _ _ _ apart, move_stage_self]⟩
    · exact .inl (by rw [move_stage_of_ne _ _ _ _ apart, move_stage_of_ne _ _ _ _ same])
  -- A failed assertion moves nobody.
  case inr.inr.inr.inr.inr.inl => exact .inl rfl
  -- Every other piece moves its own thread alone.
  all_goals exact .inl (move_stage_of_ne _ _ _ _ different)

/-- A thread that is not asleep stays put while others move. -/
theorem LockSystem.Invariant.step_stage (inv : sys.Invariant) {event : LockEvent Thread}
    (stepped : sys.step event = some next) {other : Thread} (different : other ≠ event.thread) :
    next.stage other = sys.stage other ∨
      (sys.stage other = .asleep ∧ next.stage other = .acquiring) := by
  rcases LockSystem.step_stage stepped different with same | ⟨queued, woken⟩
  · exact .inl same
  · exact .inr ⟨(inv.queued_iff other).mp queued, woken⟩

/-- The stages before and after each piece, for the thread that takes it. -/
def LockEvent.Moves : LockEvent Thread → LockStage → LockStage → Prop
  | .acquire _, before, after => before = .outside ∧ after = .acquiring
  | .p _, before, after => before = .acquiring ∧ (after = .granted ∨ after = .asleep)
  | .hold _, before, after => before = .granted ∧ after = .holding
  | .release _, before, after => before = .holding ∧ after = .vacated
  | .v _, before, after => before = .vacated ∧ after = .outside

/-- A piece takes its own thread from stage to stage. -/
theorem LockSystem.Invariant.step_own (inv : sys.Invariant) {event : LockEvent Thread}
    (stepped : sys.step event = some next) :
    event.Moves (sys.stage event.thread) (next.stage event.thread) := by
  rcases step_cases stepped with ⟨thread, rfl, stage, rfl⟩ | ⟨thread, rfl, stage, -, rfl⟩ |
    ⟨thread, rfl, stage, -, rfl⟩ | ⟨thread, rfl, stage, rfl⟩ | ⟨thread, rfl, stage, -, rfl⟩ |
    ⟨thread, rfl, stage, refuted, rfl⟩ | ⟨thread, rfl, stage, -, rfl⟩ |
    ⟨thread, woken, rest, rfl, stage, -, rfl⟩
  case inr.inr.inr.inr.inr.inl => exact absurd (inv.holder stage) refuted
  all_goals simp [LockEvent.Moves, LockEvent.thread, stage]

/-- Moving a thread between two stages that are not sleep leaves the sleepers as they are. -/
theorem LockSystem.move_asleep {thread other : Thread} {stage : LockStage}
    (awake : sys.stage thread ≠ .asleep) (stays : stage ≠ .asleep) :
    (sys.move thread stage).stage other = .asleep ↔ sys.stage other = .asleep := by
  by_cases same : other = thread
  · subst same
    simp [awake, stays]
  · rw [move_stage_of_ne _ _ _ _ same]

/-- Moving a thread between two stages on the same side of `P` keeps who is past it. -/
theorem LockSystem.move_pastP {thread other : Thread} {stage : LockStage}
    (side : stage.pastP = (sys.stage thread).pastP) :
    ((sys.move thread stage).stage other).pastP = (sys.stage other).pastP := by
  by_cases same : other = thread
  · subst same
    rw [move_stage_self, side]
  · rw [move_stage_of_ne _ _ _ _ same]

/-- Before and after, the thread is not past its `P`: the unit is where it was. -/
theorem LockSystem.Invariant.unit_move (inv : sys.Invariant) {thread : Thread} {stage : LockStage}
    (before : (sys.stage thread).pastP = false) (after : stage.pastP = false) :
    (sys.semaphore.value = 1 ∧ sys.lockHolder = none ∧
      ∀ other, ((sys.move thread stage).stage other).pastP = false) ∨
    ∃ owner, sys.semaphore.value = 0 ∧
      sys.lockHolder = (if (sys.move thread stage).stage owner = .holding then some owner
        else none) ∧
      ∀ other, ((sys.move thread stage).stage other).pastP = true ↔ other = owner := by
  -- Only the stage of this thread changes, and it stays on its side of P.
  have side : stage.pastP = (sys.stage thread).pastP := by rw [before, after]
  rcases inv.unit with ⟨one, holder, nobody⟩ | ⟨owner, zero, holder, alone⟩
  · -- Nobody was past P, and nobody is.
    exact .inl ⟨one, holder, fun other => by rw [move_pastP side, nobody other]⟩
  · -- The thread that moves is not the owner.
    have different : owner ≠ thread := fun same => by
      have past := (alone owner).mpr rfl
      rw [same, before] at past
      cases past
    refine .inr ⟨owner, zero, ?_, fun other => by rw [move_pastP side, alone other]⟩
    rw [move_stage_of_ne _ _ _ _ different, holder]

/-- Every step keeps the invariant. -/
theorem LockSystem.invariant_step {event : LockEvent Thread} (inv : sys.Invariant)
    (stepped : sys.step event = some next) : next.Invariant := by
  obtain ⟨sound, queuedIff, queueNodup, unit⟩ := id inv
  rcases step_cases stepped with ⟨thread, -, stage, rfl⟩ | ⟨thread, -, stage, positive, rfl⟩ |
    ⟨thread, -, stage, zero, rfl⟩ | ⟨thread, -, stage, rfl⟩ | ⟨thread, -, stage, held, rfl⟩ |
    ⟨thread, -, stage, refuted, rfl⟩ | ⟨thread, -, stage, empty, rfl⟩ |
    ⟨thread, woken, rest, -, stage, queue, rfl⟩
  · -- The caller of Acquire comes from outside.
    refine ⟨sound, fun other => ?_, queueNodup, ?_⟩
    · -- Neither stage is sleep, so the queue is still that of the sleepers.
      rw [move_asleep (by simp [stage]) (by simp)]
      exact queuedIff other
    · -- The unit stays where it is: P is still to come.
      exact inv.unit_move (by rw [stage]; rfl) rfl
  · -- The unit is free and is taken: nobody else is past P.
    refine ⟨sound, fun other => ?_, queueNodup, ?_⟩
    · -- Taking the unit puts nobody to sleep.
      rw [move_asleep (by simp [stage]) (by simp)]
      exact queuedIff other
    · rcases unit with ⟨one, holder, nobody⟩ | ⟨_, zero, _⟩
      · refine .inr ⟨thread, by simp [one], by simp [holder], fun other => ?_⟩
        -- The caller is the one thread past P now.
        by_cases same : other = thread
        · subst same
          simp [LockStage.pastP]
        · have := nobody other
          simp_all
      · -- With an owner there would be no unit to take.
        exact absurd zero positive
  · -- The caller finds no unit and goes to the end of the queue.
    have absent : thread ∉ sys.semaphore.queue := fun member => by
      simpa [stage] using (queuedIff thread).mp member
    refine ⟨sound, fun other => ?_, ?_, ?_⟩
    · -- The caller sleeps now, and is queued.
      simp only [move_semaphore, List.mem_append, List.mem_singleton, queuedIff other]
      by_cases same : other = thread
      · subst same
        simp
      · simp [same]
    · -- It was not queued before, being awake.
      simpa [List.nodup_append] using
        ⟨queueNodup, fun other member same => absent (same ▸ member)⟩
    · -- The unit stays with whoever is past P.
      exact inv.unit_move (by rw [stage]; rfl) rfl
  · -- The one thread past its P writes itself down as the holder.
    obtain ⟨zero, -, alone⟩ := inv.owner stage rfl
    refine ⟨sound, fun other => ?_, queueNodup, .inr ⟨thread, zero, by simp, fun other => ?_⟩⟩
    · -- Nobody falls asleep or wakes up here.
      rw [move_asleep (by simp [stage]) (by simp)]
      exact queuedIff other
    · -- The thread was past P, and still is.
      rw [move_pastP (by rw [show ({ sys with lockHolder := some thread } : LockSystem Thread).stage
        thread = sys.stage thread from rfl, stage]; rfl)]
      exact alone other
  · -- The holder clears lockHolder and keeps the unit for now.
    obtain ⟨zero, -, alone⟩ := inv.owner stage rfl
    refine ⟨sound, fun other => ?_, queueNodup, .inr ⟨thread, zero, by simp, fun other => ?_⟩⟩
    · -- Nobody falls asleep or wakes up here.
      rw [move_asleep (by simp [stage]) (by simp)]
      exact queuedIff other
    · -- The thread was past P, and still is: V comes next.
      rw [move_pastP (by rw [show ({ sys with lockHolder := none } : LockSystem Thread).stage
        thread = sys.stage thread from rfl, stage]; rfl)]
      exact alone other
  · -- The assertion holds for whoever returned from Acquire.
    exact absurd (inv.holder stage) refuted
  · -- Nobody waits, so the unit is free again.
    obtain ⟨zero, holder, alone⟩ := inv.owner stage rfl
    refine ⟨sound, fun other => ?_, queueNodup, .inl ⟨by simp [zero], ?_, fun other => ?_⟩⟩
    · -- There was nobody to wake.
      rw [move_asleep (by simp [stage]) (by simp)]
      exact queuedIff other
    · -- The holder was cleared before V.
      simpa using holder
    · -- The caller leaves, and it was alone past P.
      by_cases same : other = thread
      · subst same
        simp [LockStage.pastP]
      · rw [move_stage_of_ne _ _ _ _ same]
        exact Bool.eq_false_iff.mpr fun past => same ((alone other).mp past)
  · -- The unit is free again, and the front of the queue is on its way to it.
    obtain ⟨zero, holder, alone⟩ := inv.owner stage rfl
    -- The woken thread was asleep, so it is not the one that calls V.
    have asleep : sys.stage woken = .asleep := (queuedIff woken).mp (by simp [queue])
    have different : woken ≠ thread := fun same => by simp [same, stage] at asleep
    rw [queue] at queueNodup
    obtain ⟨absent, restNodup⟩ := List.nodup_cons.mp queueNodup
    refine ⟨sound, fun other => ?_, restNodup, .inl ⟨by simp [zero], ?_, fun other => ?_⟩⟩
    · -- The front is off the queue and awake; the others stay asleep or awake.
      have queued := queuedIff other
      rw [queue, List.mem_cons] at queued
      by_cases same : other = thread
      · subst same
        simpa [stage, different.symm] using queued
      · by_cases front : other = woken
        · subst front
          simp [absent, different]
        · simpa [same, front] using queued
    · -- The holder was cleared before V.
      simpa using holder
    · -- The caller was alone past P, and the woken thread has yet to test the value.
      by_cases same : other = thread
      · subst same
        simp [LockStage.pastP]
      · rw [move_stage_of_ne _ _ _ _ same]
        by_cases front : other = woken
        · subst front
          simp [LockStage.pastP]
        · rw [move_stage_of_ne _ _ _ _ front]
          exact Bool.eq_false_iff.mpr fun past => same ((alone other).mp past)

/-- Whatever the threads do, the lock's invariant holds. -/
theorem LockSystem.invariant_replay {events : List (LockEvent Thread)}
    (reached : replay LockSystem.step .new events = some sys) : sys.Invariant :=
  replay_invariant (fun _ _ _ => invariant_step) invariant_new reached

/--
Locks give mutual exclusion in every interleaving of `Acquire` and `Release`.

A thread is past its `P` from the end of `P` to its `V`, with the unprotected writes in between.
-/
theorem lock_mutualExclusion (events : List (LockEvent Thread)) (sys : LockSystem Thread)
    (reached : replay LockSystem.step .new events = some sys) :
    (∀ thread other, sys.stage thread = .holding → sys.stage other = .holding → thread = other) ∧
    (sys.semaphore.value = 0 ∨ sys.semaphore.value = 1) ∧
    (sys.semaphore.value = 1 → ∀ thread, (sys.stage thread).pastP = false) ∧
    (sys.lockHolder = none ∨ ∃ thread, sys.lockHolder = some thread ∧
      ∀ other, (sys.stage other).pastP = true ↔ other = thread) ∧
    sys.aborted = false := by
  -- Everything is read off the invariant.
  have inv : sys.Invariant := LockSystem.invariant_replay reached
  refine ⟨fun thread other holding also => ?_, ?_, fun one thread => ?_, ?_, inv.sound⟩
  · -- Both are past their P, and only one thread can be.
    exact inv.exclusive (by rw [holding]; rfl) (by rw [also]; rfl)
  · -- The value is 1 or 0 according to who has the unit.
    rcases inv.unit with ⟨one, -, -⟩ | ⟨_, zero, -, -⟩
    · exact .inr one
    · exact .inl zero
  · -- With the unit free nobody is past P.
    rcases inv.unit with ⟨-, -, nobody⟩ | ⟨_, zero, -, -⟩
    · exact nobody thread
    · omega
  · -- The owner is the holder, except before and after it is written down.
    rcases inv.unit with ⟨-, holder, -⟩ | ⟨owner, -, holder, alone⟩
    · exact .inl holder
    · by_cases holding : sys.stage owner = .holding
      · exact .inr ⟨owner, by rw [holder, if_pos holding], alone⟩
      · exact .inl (by rw [holder, if_neg holding])

/-- Two threads: the second one sleeps while the first is in, and gets in after its release. -/
theorem lock_mutualExclusion_handedOver :
    ∃ sys : LockSystem (Fin 2),
      replay LockSystem.step .new [.acquire 0, .p 0, .acquire 1, .p 1, .hold 0, .release 0, .v 0,
        .p 1, .hold 1] = some sys ∧
      sys.lockHolder = some 1 ∧ sys.aborted = false := by
  refine ⟨_, rfl, rfl, ?_⟩
  exact (lock_mutualExclusion [.acquire 0, .p 0, .acquire 1, .p 1, .hold 0, .release 0, .v 0,
    .p 1, .hold 1] _ rfl).2.2.2.2

end

end Nachos
