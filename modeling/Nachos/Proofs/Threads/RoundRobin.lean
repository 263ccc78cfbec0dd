import Nachos.Proofs.Threads.Finish

/-! Threads of equal priority take turns. -/

namespace Nachos

/-- A thread is put on the ready list, or taken off it to run. -/
inductive Turn
  | readied (thread : ThreadNumber)
  | dispatched (thread : ThreadNumber)
  deriving DecidableEq

/-- The threads that became ready, in this order. -/
def Turn.readyOrder (turns : List Turn) : List ThreadNumber :=
  turns.filterMap fun
    | .readied thread => some thread
    | .dispatched _ => none

/-- The threads that were dispatched, in this order. -/
def Turn.dispatchOrder (turns : List Turn) : List ThreadNumber :=
  turns.filterMap fun
    | .readied _ => none
    | .dispatched thread => some thread

@[simp] theorem Turn.readyOrder_append (turns more : List Turn) :
    readyOrder (turns ++ more) = readyOrder turns ++ readyOrder more := by
  simp [readyOrder]

@[simp] theorem Turn.dispatchOrder_append (turns more : List Turn) :
    dispatchOrder (turns ++ more) = dispatchOrder turns ++ dispatchOrder more := by
  simp [dispatchOrder]

namespace ThreadSystem

variable {sys next : ThreadSystem} {thread : ThreadNumber}

/-- The turns in `Yield`: the current thread gives way to the front of the ready list, if any. -/
def yieldTurns (sys : ThreadSystem) : List Turn :=
  match sys.readyList with
  | [] => []
  | nextThread :: _ => [.readied sys.currentThread, .dispatched nextThread]

/-- The turns in an event: the calls of `ReadyToRun` and of `Run`. -/
def turns (sys : ThreadSystem) (event : ThreadEvent) (_next : ThreadSystem) : List Turn :=
  match event with
  | .yield => sys.yieldTurns
  | .fork thread => .readied thread :: (sys.started thread).yieldTurns
  | .v semaphore | .interrupt semaphore =>
    (sys.semaphores semaphore).queue.head?.toList.map .readied
  | .dispatch => sys.readyList.head?.toList.map .dispatched
  | _ => []

/-- Who is on the ready list when the event calls `Yield`. -/
def readyAtYield (sys : ThreadSystem) : ThreadEvent → List ThreadNumber
  | .yield => sys.readyList
  | .fork thread => (sys.started thread).readyList
  | _ => []

/-- All threads that there are, and that have not finished, have the same priority. -/
def EqualPriorities (sys : ThreadSystem) : Prop :=
  ∀ x < sys.created, ∀ y < sys.created, sys.status x ≠ .zommbie → sys.status y ≠ .zommbie →
    sys.priority x = sys.priority y

instance (sys : ThreadSystem) : Decidable sys.EqualPriorities :=
  inferInstanceAs (Decidable (∀ x < sys.created, ∀ y < sys.created, _ ≠ _ → _ ≠ _ → _ = _))

/-- A thread that becomes ready goes behind the others, whose priority is the same. -/
theorem Invariant.behind (inv : sys.Invariant) (equal : sys.EqualPriorities)
    (created : thread < sys.created) (alive : sys.status thread ≠ .zommbie)
    {list : List ThreadNumber} (ready : ∀ other ∈ list, other ∈ sys.readyList) :
    insertWalk sys.priorityCompare thread list = list ++ [thread] := by
  -- Equal priorities compare as 0, so the walk goes past all of them.
  apply insertWalk_append
  intro other member
  have status := (inv.consistent.ready_iff other).mp (ready other member)
  have same := equal thread created other (inv.created_of_used (by simp [status])) alive
    (by simp [status])
  simp [priorityCompare, same]

/-- `Yield` moves the current thread behind those that were ready. -/
theorem Invariant.yield_turns (inv : sys.Invariant) (equal : sys.EqualPriorities)
    (executing : sys.phase = .executing) :
    sys.readyList ++ Turn.readyOrder sys.yieldTurns =
      Turn.dispatchOrder sys.yieldTurns ++ sys.yield.readyList := by
  -- With nobody on the ready list `Yield` does nothing.
  cases readyList : sys.readyList with
  | nil => simp [yieldTurns, readyList, yield_nil readyList, Turn.readyOrder, Turn.dispatchOrder]
  | cons nextThread rest =>
    -- The caller has run, so it is neither new nor done, and it goes behind the others.
    have runs := inv.current (by simp [executing])
    have used : sys.status sys.currentThread ≠ .justCreated := by simp [runs]
    have alive : sys.status sys.currentThread ≠ .zommbie := by simp [runs]
    have others : ∀ other ∈ rest, other ∈ sys.readyList := by simp +contextual [readyList]
    have behind := inv.behind equal (inv.created_of_used used) alive others
    -- The front is dispatched, and the caller comes last.
    rw [inv.yield_cons executing readyList]
    simp [yieldTurns, readyList, behind, Turn.readyOrder, Turn.dispatchOrder]

/-- `V` puts the thread that it wakes behind those that were ready. -/
theorem Invariant.v_turns (inv : sys.Invariant) (equal : sys.EqualPriorities) (semaphore : Nat) :
    (sys.v semaphore).readyList =
      sys.readyList ++ (sys.semaphores semaphore).queue.head?.toList := by
  cases queue : (sys.semaphores semaphore).queue with
  | nil => simp [v_nil queue]
  | cons woken rest =>
    have blocked := (inv.waiting queue).1
    rw [inv.v_cons queue]
    exact inv.behind equal (inv.created_of_used (by simp [blocked])) (by simp [blocked])
      fun _ => id

/-- A new thread goes behind those that were ready, with the same priority as they have. -/
theorem Invariant.started_turns (inv : sys.Invariant) (equal : sys.EqualPriorities)
    (created : thread < sys.created) (unforked : sys.forked thread = false) :
    (sys.started thread).readyList = sys.readyList ++ [thread] ∧
      (sys.started thread).EqualPriorities := by
  have new := (inv.unforked thread).mp unforked
  have onward := inv.started created unforked
  rw [inv.started_eq unforked] at onward ⊢
  refine ⟨inv.behind equal created (by simp [new]) fun _ => id, ?_⟩
  intro x below y also first second
  exact equal x below y also (fun done => first (onward.done x done))
    fun done => second (onward.done y done)

/-- `P` leaves the ready list alone. -/
theorem p_readyList (sys : ThreadSystem) (semaphore : Nat) :
    (sys.p semaphore).readyList = sys.readyList := by
  unfold p
  split <;> rfl

/-- In every step, whoever becomes ready goes behind the others, and the front is dispatched. -/
theorem Invariant.turns {event : ThreadEvent} (inv : sys.Invariant) (equal : sys.EqualPriorities)
    (stepped : sys.step event = some next) :
    sys.readyList ++ Turn.readyOrder (sys.turns event next) =
      Turn.dispatchOrder (sys.turns event next) ++ next.readyList := by
  -- By cases on the step: whoever becomes ready is put last, and the front is dispatched.
  cases ThreadSystem.step_cases stepped with
  -- Making a thread makes nobody ready.
  | creates =>
    unfold createThread
    split <;> simp [ThreadSystem.turns, Turn.readyOrder, Turn.dispatchOrder]
  | orders => simp [ThreadSystem.turns, Turn.readyOrder, Turn.dispatchOrder]
  -- `Fork` makes the new thread ready, and then yields.
  | forks executing thread created unforked =>
    obtain ⟨behind, still⟩ := inv.started_turns equal created unforked
    have runs : (sys.started thread).phase = .executing := by
      rw [inv.started_eq unforked]
      exact executing
    have yields := (inv.started created unforked).inv.yield_turns still runs
    rw [behind, List.append_assoc] at yields
    exact yields
  | yields executing => exact inv.yield_turns equal executing
  -- A test in P takes nobody from the ready list.
  | tests executing semaphore =>
    simp [ThreadSystem.turns, p_readyList, Turn.readyOrder, Turn.dispatchOrder]
  -- The thread that V wakes goes behind the others.
  | wakes semaphore calls =>
    have woken := inv.v_turns equal semaphore
    -- The thread and the handler call V alike.
    rcases calls with rfl | rfl
    all_goals
      rw [woken]
      cases queue : (sys.semaphores semaphore).queue with
      | nil => simp [ThreadSystem.turns, queue, Turn.readyOrder, Turn.dispatchOrder]
      | cons => simp [ThreadSystem.turns, queue, Turn.readyOrder, Turn.dispatchOrder]
  -- Who finishes was not on the list.
  | finishes =>
    simp [ThreadSystem.turns, ThreadSystem.finish, setStatus, Turn.readyOrder, Turn.dispatchOrder]
  -- A thread that goes to sleep lets the front of the list run, without becoming ready itself.
  | dispatches finishing nextThread rest sleeping readyList =>
    have clean : sys.toBeDestroyed = none := inv.destroyed (by simp [sleeping])
    rw [run_eq (by exact clean)]
    simp [ThreadSystem.turns, readyList, setStatus, Turn.readyOrder, Turn.dispatchOrder]
  -- The thread that goes on is off the list already.
  | resumes =>
    have same : sys.resume.readyList = sys.readyList := by
      obtain ⟨threadCnt, cleaned⟩ := sys.checkToBeDestroyed_frame
      rcases sys.resume_cases with ⟨-, result⟩ | ⟨semaphore, -, result⟩
      · rw [result, cleaned]
      · rw [result, cleaned, p_readyList]
    simp [ThreadSystem.turns, same, Turn.readyOrder, Turn.dispatchOrder]

/-- Who was waiting at first, and who became ready, has been dispatched or waits in this order. -/
def InTurn (waiting : List ThreadNumber) (record : ThreadSystem × List Turn) : Prop :=
  waiting ++ Turn.readyOrder record.2 = Turn.dispatchOrder record.2 ++ record.1.readyList

/-- Along a run with equal priorities everybody is dispatched in turn. -/
theorem InTurn.run {waiting : List ThreadNumber} {events : List ThreadEvent} :
    ∀ {record after : ThreadSystem × List Turn}, InTurn waiting record → record.1.Invariant →
      EveryStep ThreadSystem.step (fun sys _ => sys.EqualPriorities) record.1 events →
      replay (recording ThreadSystem.step ThreadSystem.turns) record events = some after →
      InTurn waiting after ∧ after.1.Invariant := by
  -- By induction on the run.
  induction events with
  | nil =>
    intro record after inTurn inv _ ran
    cases ran
    exact ⟨inTurn, inv⟩
  | cons event rest ih =>
    intro record after inTurn inv equal ran
    -- The step records its turns, and the rest of the run the others.
    obtain ⟨middle, stepped, ran⟩ := Option.bind_eq_some_iff.mp ran
    obtain ⟨went, added⟩ := recording_some stepped
    have moved := inv.turns equal.1 went
    refine ih ?_ (inv.step went).inv (equal.2 _ went) ran
    -- The record grows at its end, where the step says what is added to either order.
    unfold InTurn at inTurn ⊢
    rw [added, Turn.readyOrder_append, Turn.dispatchOrder_append, ← List.append_assoc, inTurn,
      List.append_assoc, moved, List.append_assoc]

/-- Who is ready when the current thread yields comes first in the order of the dispatches. -/
theorem Invariant.first_turns {event : ThreadEvent} (inv : sys.Invariant)
    (equal : sys.EqualPriorities) (stepped : sys.step event = some next) :
    (∃ behind, sys.readyList ++ Turn.readyOrder (sys.turns event next) =
      sys.readyAtYield event ++ behind) ∧ sys.currentThread ∉ sys.readyAtYield event := by
  -- Only `Yield` and `Fork` have anybody ready at a yield, and neither has the thread itself.
  cases ThreadSystem.step_cases stepped with
  -- A yield: the list as it was before, in which the caller is not.
  | yields executing =>
    refine ⟨⟨_, rfl⟩, fun member => ?_⟩
    have ready := (inv.consistent.ready_iff _).mp member
    simp [inv.current (by simp [executing])] at ready
  -- A fork: the list with the new thread at its end.
  | forks executing thread created unforked =>
    have behind := (inv.started_turns equal created unforked).1
    have runs := inv.current (by simp [executing])
    -- The new thread is the last of those that were ready at the yield.
    refine ⟨⟨Turn.readyOrder (sys.started thread).yieldTurns, ?_⟩, fun member => ?_⟩
    · rw [readyAtYield, behind, List.append_assoc]
      rfl
    · -- The caller is neither ready nor new.
      rw [readyAtYield, behind, List.mem_append, inv.consistent.ready_iff, List.mem_singleton] at member
      rcases member with ready | same
      · simp [runs] at ready
      · have new := (inv.unforked thread).mp unforked
        simp [← same, runs] at new
  -- Nobody yields in any other step.
  | wakes semaphore calls =>
    rcases calls with rfl | rfl
    all_goals exact ⟨⟨_, rfl⟩, List.not_mem_nil⟩
  | _ => exact ⟨⟨_, rfl⟩, List.not_mem_nil⟩

end ThreadSystem

/-- What stands in front of an item that the first part does not have includes all of that part. -/
theorem mem_front_of_append_eq {Item : Type} {first behind front back : List Item} {item : Item}
    (same : first ++ behind = front ++ item :: back) (absent : item ∉ first) :
    ∀ other ∈ first, other ∈ front := by
  intro other member
  rcases List.append_eq_append_iff.mp same with ⟨more, rfl, -⟩ | ⟨more, rfl, rest⟩
  · exact List.mem_append_left _ member
  · cases more with
    | nil => simpa using member
    | cons head tail =>
      obtain ⟨rfl, -⟩ := List.cons.inj rest
      simp at absent

/--
Threads of equal priority are served in turn, whatever they fork and wake in between.

They are dispatched in the order in which they became ready. Everybody who is on the ready list when
a thread calls `Yield`, also in `Fork`, is dispatched before that thread is dispatched again.
-/
theorem equalPriorities_takeTurns (initialValue : Nat → Int) (events : List ThreadEvent)
    (event : ThreadEvent) (later : List ThreadEvent) (sys after : ThreadSystem)
    (turns added : List Turn)
    (equal : EveryStep ThreadSystem.step (fun sys _ => sys.EqualPriorities) (.start initialValue)
      (events ++ event :: later))
    (reached : replay (recording ThreadSystem.step ThreadSystem.turns) (.start initialValue, [])
      events = some (sys, turns))
    (ran : replay (recording ThreadSystem.step ThreadSystem.turns) (sys, []) (event :: later) =
      some (after, added)) :
    Turn.readyOrder turns = Turn.dispatchOrder turns ++ sys.readyList ∧
    ∀ front back, Turn.dispatchOrder added = front ++ sys.currentThread :: back →
      ∀ other ∈ sys.readyAtYield event, other ∈ front := by
  -- Priorities are equal all along, before the yield and after it.
  obtain ⟨before, rest⟩ := equal.split
  have still := rest sys (replay_recorded reached).1
  have begun : ThreadSystem.InTurn [] (.start initialValue, []) := rfl
  obtain ⟨inTurn, inv⟩ := begun.run (ThreadSystem.invariant_start initialValue) before reached
  refine ⟨inTurn, fun front back again => ?_⟩
  -- From then on the order of the dispatches starts with those who are on the ready list now.
  have waiting : ThreadSystem.InTurn sys.readyList (sys, []) := by
    simp [ThreadSystem.InTurn, Turn.readyOrder, Turn.dispatchOrder]
  obtain ⟨order, -⟩ := waiting.run inv still ran
  -- The yield is the first step of the rest, and its turns come first in the record.
  obtain ⟨middle, stepped, ran⟩ := Option.bind_eq_some_iff.mp ran
  obtain ⟨went, first⟩ := recording_some stepped
  obtain ⟨-, more, all⟩ := replay_recorded ran
  have all : added = sys.turns event middle.1 ++ more := by simpa [first] using all
  obtain ⟨⟨behind, begins⟩, absent⟩ := inv.first_turns still.1 went
  -- The thread that yields is not among them.
  have same : sys.readyAtYield event ++ (behind ++ Turn.readyOrder more) =
      front ++ sys.currentThread :: (back ++ after.readyList) := by
    unfold ThreadSystem.InTurn at order
    dsimp only at order
    rw [again, all, Turn.readyOrder_append, ← List.append_assoc, begins] at order
    simpa using order
  exact mem_front_of_append_eq same absent

/-- Three threads take turns: whoever yields is dispatched again after the two others. -/
theorem equalPriorities_takeTurns_three :
    ∃ sys after turns added,
      replay (recording ThreadSystem.step ThreadSystem.turns) (.start fun _ => 0, [])
        [.createThread, .createThread, .fork 1, .resume, .fork 2, .resume] = some (sys, turns) ∧
      replay (recording ThreadSystem.step ThreadSystem.turns) (sys, [])
        [.yield, .resume, .yield, .resume, .yield] = some (after, added) ∧
      Turn.dispatchOrder added = [2, 1] ++ sys.currentThread :: [] ∧
      sys.readyAtYield .yield = [2, 1] ∧
      ∀ other ∈ sys.readyAtYield .yield, other ∈ [2, 1] := by
  refine ⟨_, _, _, _, rfl, rfl, rfl, rfl, ?_⟩
  exact (equalPriorities_takeTurns (fun _ => 0)
    [.createThread, .createThread, .fork 1, .resume, .fork 2, .resume] .yield
    [.resume, .yield, .resume, .yield] _ _ _ _ (by decide +kernel) rfl rfl).2 [2, 1] [] rfl

end Nachos
