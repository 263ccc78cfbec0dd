import Nachos.Proofs.Threads.Scheduler

/-! Which thread the scheduler dispatches, and how its priority compares with the others. -/

namespace Nachos

namespace ThreadSystem

/-- The ready list is in the order of the priorities. -/
def Sorted (sys : ThreadSystem) : Prop :=
  sys.readyList.Pairwise fun x y => sys.priority x ≤ sys.priority y

/-- The event does not give a thread a priority that its place on the ready list is wrong for. -/
def KeepsOrder (sys : ThreadSystem) : ThreadEvent → Prop
  | .setPriority thread priority =>
    Sorted { sys with priority := Function.update sys.priority thread priority }
  | _ => True

variable {sys next : ThreadSystem} {thread : ThreadNumber}

/-- A thread is put where its priority belongs. -/
theorem insertWalk_sorted {list : List ThreadNumber}
    (sorted : list.Pairwise fun x y => sys.priority x ≤ sys.priority y) (thread : ThreadNumber) :
    (insertWalk sys.priorityCompare thread list).Pairwise
      fun x y => sys.priority x ≤ sys.priority y := by
  -- The comparison in the source is by priority, and the walk goes past the equal ones.
  refine insertWalk_pairwise ?_ ?_ ?_ sorted
  · -- Less or equal is transitive, and the comparison in the source says which one is less.
    intro x y z first second
    exact Int.le_trans first second
  · intro other _ less
    unfold priorityCompare at less
    split at less
    · omega
    · split at less <;> omega
  · intro other _ more
    unfold priorityCompare at more
    split at more
    · omega
    · split at more <;> omega

/-- `V` keeps the ready list in order. -/
theorem Sorted.v (sorted : sys.Sorted) (inv : sys.Invariant) (semaphore : Nat) :
    (sys.v semaphore).Sorted := by
  cases queue : (sys.semaphores semaphore).queue with
  | nil =>
    rw [v_nil queue]
    exact sorted
  | cons woken rest =>
    rw [inv.v_cons queue]
    exact insertWalk_sorted sorted woken

/-- `P` keeps the ready list in order. -/
theorem Sorted.p (sorted : sys.Sorted) (semaphore : Nat) : (sys.p semaphore).Sorted := by
  by_cases zero : (sys.semaphores semaphore).value = 0
  · rw [p_zero zero]
    exact sorted
  · rw [p_pos zero]
    exact sorted

/-- `Yield` keeps the ready list in order. -/
theorem Sorted.yield (sorted : sys.Sorted) (inv : sys.Invariant)
    (executing : sys.phase = .executing) : sys.yield.Sorted := by
  cases readyList : sys.readyList with
  -- Nobody is ready, and `Yield` does nothing.
  | nil =>
    rw [yield_nil readyList]
    exact sorted
  -- The caller is put where it belongs in the rest of the list.
  | cons nextThread rest =>
    rw [inv.yield_cons executing readyList]
    unfold Sorted at sorted
    rw [readyList] at sorted
    have behind := (List.pairwise_cons.mp sorted).2
    exact @insertWalk_sorted sys rest behind sys.currentThread

/-- Putting a new thread on the ready list keeps it in order. -/
theorem Sorted.started (sorted : sys.Sorted) (inv : sys.Invariant)
    (unforked : sys.forked thread = false) : (sys.started thread).Sorted := by
  rw [inv.started_eq unforked]
  exact insertWalk_sorted sorted thread

/-- A dispatch takes the front of the ready list off it. -/
theorem Sorted.run {nextThread : ThreadNumber} {rest : List ThreadNumber} (sorted : sys.Sorted)
    (readyList : sys.readyList = nextThread :: rest) (finishing : Bool) :
    ({ sys with readyList := rest }.run nextThread finishing).Sorted := by
  unfold Sorted at sorted
  rw [readyList] at sorted
  have behind := (List.pairwise_cons.mp sorted).2
  unfold ThreadSystem.run
  split
  · exact behind
  · exact behind

/-- What a thread does after `SWITCH` keeps the ready list in order. -/
theorem Sorted.resume (sorted : sys.Sorted) : sys.resume.Sorted := by
  have cleaned : sys.checkToBeDestroyed.Sorted := by
    obtain ⟨threadCnt, cleaned⟩ := sys.checkToBeDestroyed_frame
    rw [cleaned]
    exact sorted
  rcases sys.resume_cases with ⟨-, result⟩ | ⟨semaphore, -, result⟩
  · rw [result]
    exact cleaned
  · rw [result]
    exact cleaned.p semaphore

/-- A step keeps the ready list in order, unless it moves a priority past another one on it. -/
theorem Sorted.step {event : ThreadEvent} (sorted : sys.Sorted) (inv : sys.Invariant)
    (order : sys.KeepsOrder event) (stepped : sys.step event = some next) : next.Sorted := by
  cases ThreadSystem.step_cases stepped with
  -- Making a thread does not touch the list.
  | creates =>
    unfold createThread
    split <;> exact sorted
  -- An order of priorities has to keep the list in order, which is the condition.
  | orders => exact order
  -- The child is made ready first, and then the parent yields.
  | forks executing thread created unforked =>
    have onward := inv.started created unforked
    have ready := sorted.started inv unforked
    refine ready.yield onward.inv ?_
    rw [inv.started_eq unforked]
    exact executing
  -- The other steps take the front off the list, or put a thread where it belongs.
  | yields executing => exact sorted.yield inv executing
  | tests => exact sorted.p _
  | wakes => exact sorted.v inv _
  | finishes => exact sorted
  | dispatches finishing nextThread rest _ readyList => exact sorted.run readyList finishing
  | resumes => exact sorted.resume

/-- The ways in which a step can be a dispatch: a yield, perhaps in `Fork`, or the end of a sleep. -/
theorem Invariant.dispatched {event : ThreadEvent} (inv : sys.Invariant)
    (stepped : sys.step event = some next) (resuming : next.phase = .resuming) :
    (sys.phase = .executing ∧ next = sys.yield) ∨
    (∃ thread, sys.phase = .executing ∧ thread < sys.created ∧ sys.forked thread = false ∧
      next = (sys.started thread).yield) ∨
    ∃ finishing nextThread rest, sys.phase = .sleeping finishing ∧
      sys.readyList = nextThread :: rest ∧
      next = { sys with readyList := rest }.run nextThread finishing := by
  -- `P` leaves its caller in the loop of `Sleep`, or in its own code.
  have tested : ∀ (before : ThreadSystem) semaphore, (before.p semaphore).phase ≠ .resuming := by
    intro before semaphore
    by_cases zero : (before.semaphores semaphore).value = 0
    · simp [p_zero zero]
    · simp [p_pos zero]
  -- `V` does not touch the processor.
  have woke : ∀ semaphore, (sys.v semaphore).phase = sys.phase := by
    intro semaphore
    obtain ⟨semaphores, status, readyList, woke⟩ := inv.v_frame semaphore
    rw [woke]
  cases ThreadSystem.step_cases stepped with
  -- The steps that leave the thread in its own code are no dispatch.
  | creates executing =>
    unfold createThread at resuming
    split at resuming <;> simp [executing] at resuming
  | orders executing => simp [executing] at resuming
  | forks executing thread created unforked =>
    exact .inr (.inl ⟨thread, executing, created, unforked, rfl⟩)
  | yields executing => exact .inl ⟨executing, rfl⟩
  | tests => exact absurd resuming (tested sys _)
  -- V leaves the processor where it is.
  | wakes semaphore _ awake =>
    rw [woke] at resuming
    exact absurd resuming awake
  | finishes => cases resuming
  | dispatches finishing nextThread rest sleeping readyList =>
    exact .inr (.inr ⟨finishing, nextThread, rest, sleeping, readyList, rfl⟩)
  -- After a `SWITCH` the thread executes, or goes to sleep in P.
  | resumes =>
    rcases sys.resume_cases with ⟨-, result⟩ | ⟨semaphore, -, result⟩
    · rw [result] at resuming
      cases resuming
    · rw [result] at resuming
      exact absurd resuming (tested sys.checkToBeDestroyed semaphore)

/-- The front of an ordered ready list comes before all others on it. -/
theorem Sorted.front {nextThread other : ThreadNumber} {rest : List ThreadNumber}
    (sorted : sys.Sorted) (readyList : sys.readyList = nextThread :: rest) (member : other ∈ rest) :
    sys.priority nextThread ≤ sys.priority other := by
  unfold Sorted at sorted
  rw [readyList] at sorted
  exact (List.pairwise_cons.mp sorted).1 other member

/-- `Yield` dispatches the best of the other threads that are ready. -/
theorem Sorted.yield_respects (sorted : sys.Sorted) (inv : sys.Invariant)
    (executing : sys.phase = .executing) {other : ThreadNumber}
    (dispatched : sys.yield.phase = .resuming) (ready : sys.yield.status other = .ready)
    (different : other ≠ sys.currentThread) :
    sys.yield.priority sys.yield.currentThread ≤ sys.yield.priority other := by
  -- Whoever is ready after the yield is in the list after it.
  have member := ((inv.yield executing).inv.consistent.ready_iff other).mpr ready
  cases readyList : sys.readyList with
  -- With nobody ready there is no dispatch.
  | nil =>
    rw [yield_nil readyList, executing] at dispatched
    cases dispatched
  -- The front was the best, and the others were behind it.
  | cons nextThread rest =>
    rw [inv.yield_cons executing readyList] at member ⊢
    have behind : other ∈ rest := (mem_insertWalk.mp member).resolve_left different
    exact sorted.front readyList behind

end ThreadSystem

/--
A dispatch respects the priorities of the ready threads, but for the thread that yields.

The ready list is in order as long as no priority is changed past another one on it. A thread that
yields gives way to the best of the others, whatever its own priority is.
-/
theorem dispatch_respectsPriority (initialValue : Nat → Int) (events : List ThreadEvent)
    (event : ThreadEvent) (sys next : ThreadSystem)
    (ordered : EveryStep ThreadSystem.step ThreadSystem.KeepsOrder (.start initialValue) events)
    (reached : replay ThreadSystem.step (.start initialValue) events = some sys)
    (stepped : sys.step event = some next) (dispatched : next.phase = .resuming)
    (other : ThreadNumber) (ready : next.status other = .ready)
    (stayed : ¬ (sys.phase = .executing ∧ other = sys.currentThread)) :
    next.priority next.currentThread ≤ next.priority other := by
  -- Along the run the states agree with the queues, and the ready list is in order.
  have kept : ∀ (before : ThreadSystem) event after, before.Invariant ∧ before.Sorted →
      before.KeepsOrder event → before.step event = some after →
      after.Invariant ∧ after.Sorted := by
    intro before event after both order stepped
    exact ⟨(both.1.step stepped).inv, both.2.step both.1 order stepped⟩
  obtain ⟨inv, sorted⟩ := replay_guarded kept
    ⟨ThreadSystem.invariant_start initialValue, List.Pairwise.nil⟩ ordered reached
  -- One case for each way in which a step can be a dispatch.
  rcases inv.dispatched stepped dispatched with
    ⟨executing, rfl⟩ | ⟨thread, executing, created, unforked, rfl⟩ |
    ⟨finishing, nextThread, rest, sleeping, readyList, rfl⟩
  · -- A yield: the thread that stays is the one that called it.
    exact sorted.yield_respects inv executing dispatched ready fun same => stayed ⟨executing, same⟩
  · -- The new thread is on the ready list when its creator yields.
    have still : (sys.started thread).currentThread = sys.currentThread ∧
        (sys.started thread).phase = sys.phase := by
      rw [inv.started_eq unforked]
      exact ⟨rfl, rfl⟩
    refine (sorted.started inv unforked).yield_respects (inv.started created unforked).inv
      (still.2.trans executing) dispatched ready ?_
    intro same
    exact stayed ⟨executing, same.trans still.1⟩
  · -- Everybody else who is ready was on the list behind the front.
    have member := ((inv.step stepped).inv.consistent.ready_iff other).mpr ready
    have clean : sys.toBeDestroyed = none := inv.destroyed (by simp [sleeping])
    rw [ThreadSystem.run_eq (by exact clean)] at member ⊢
    exact sorted.front readyList member

/-- The thread that was forked first forks another one, and yields to the main thread. -/
theorem dispatch_respectsPriority_forks :
    ∃ sys next, replay ThreadSystem.step (.start fun _ => 0)
        [.createThread, .createThread, .setPriority 1 5, .setPriority 2 3, .fork 1, .resume] =
          some sys ∧
      sys.step (.fork 2) = some next ∧ next.priority next.currentThread ≤ next.priority 2 := by
  have ordered : EveryStep ThreadSystem.step ThreadSystem.KeepsOrder (.start fun _ => 0)
      [.createThread, .createThread, .setPriority 1 5, .setPriority 2 3, .fork 1, .resume] :=
    .cons rfl trivial (.cons rfl trivial (.cons rfl List.Pairwise.nil (.cons rfl List.Pairwise.nil
      (.cons rfl trivial (.cons rfl trivial trivial)))))
  refine ⟨_, _, rfl, rfl, ?_⟩
  exact dispatch_respectsPriority (fun _ => 0) _ (.fork 2) _ _ ordered rfl rfl rfl 2 rfl (by decide)

/-- A thread that forks one of less priority gives way to it, although it stays ready itself. -/
theorem dispatch_passesForker :
    ∃ sys next, replay ThreadSystem.step (.start fun _ => 0)
        [.setPriority 0 4, .createThread, .setPriority 1 8] = some sys ∧
      sys.step (.fork 1) = some next ∧ next.phase = .resuming ∧ next.status 0 = .ready ∧
      next.priority 0 < next.priority next.currentThread :=
  ⟨_, _, rfl, rfl, rfl, rfl, by decide⟩

end Nachos
