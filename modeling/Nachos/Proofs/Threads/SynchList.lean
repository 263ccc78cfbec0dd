import Mathlib.Data.Fintype.Card
import Nachos.Proofs.Threads.Condition
import Nachos.Threads.SynchList

/-! Items leave the list in the order in which they came, and no consumer sleeps through one. -/

namespace Nachos

section

variable {Thread Item : Type} [DecidableEq Thread]

/-- The consumer is parked on `listEmpty`: its semaphore is queued and not signalled. -/
def SynchListSystem.Parked (sys : SynchListSystem Thread Item) (thread : Thread) : Prop :=
  ∃ waiter ∈ sys.monitor.waitQueue, (sys.monitor.stage thread).waiter = some waiter

/-- The consumer called `Wait`, and has not tested the list again yet. -/
def SynchListStage.retries : SynchListStage Item → Bool
  | .retrying => true
  | .idle | .appending _ | .removing | .leaving _ => false

/-- The consumer was signalled, and has not tested the list again yet. -/
def SynchListSystem.Signalled (sys : SynchListSystem Thread Item) (thread : Thread) : Prop :=
  (sys.stage thread).retries = true ∧ ¬ sys.Parked thread

instance (sys : SynchListSystem Thread Item) : DecidablePred sys.Parked :=
  fun _ => inferInstanceAs (Decidable (∃ waiter ∈ sys.monitor.waitQueue, _))

instance (sys : SynchListSystem Thread Item) : DecidablePred sys.Signalled :=
  fun _ => inferInstanceAs (Decidable (_ ∧ _))

/-- What every interleaving of `Append` and `RemoveFront` keeps. -/
structure SynchListSystem.Invariant [Fintype Thread] (sys : SynchListSystem Thread Item) :
    Prop where
  monitored : sys.monitor.Invariant
  sound : sys.aborted = false
  fifo : sys.removed ++ sys.list = sys.appended
  waits : ∀ thread, (sys.monitor.stage thread).waiter ≠ none →
    (sys.stage thread).retries = true
  -- Items that lie there while somebody is parked are spoken for by consumers on their way.
  signalled : sys.monitor.waitQueue ≠ [] →
    sys.list.length ≤ (Finset.univ.filter sys.Signalled).card

/-- What a step can do: one case for each event, and two for the test of the list. -/
inductive SynchListSystem.Steps (sys : SynchListSystem Thread Item) :
    SynchListEvent Thread Item → SynchListSystem Thread Item → Prop
  | append {thread : Thread} {item : Item} (idle : sys.stage thread = .idle) :
      Steps sys (.append thread item) (sys.move thread (.appending item))
  | removeFront {thread : Thread} (idle : sys.stage thread = .idle) :
      Steps sys (.removeFront thread) (sys.move thread .removing)
  | lock {piece : LockEvent Thread} {monitor : ConditionSystem Thread}
      (allowed : sys.allows piece = true) (went : sys.monitor.step (.lock piece) = some monitor) :
      Steps sys (.lock piece)
        ({ sys with monitor }.move piece.thread ((sys.stage piece.thread).after piece))
  | p {thread : Thread} {monitor : ConditionSystem Thread}
      (went : sys.monitor.step (.p thread) = some monitor) :
      Steps sys (.p thread) { sys with monitor }
  | put {thread : Thread} {item : Item} {monitor : ConditionSystem Thread}
      (appending : sys.stage thread = .appending item)
      (went : sys.monitor.step (.signal thread) = some monitor) :
      Steps sys (.put thread)
        ({ sys with
          monitor
          list := sys.list ++ [item]
          appended := sys.appended ++ [item] }.move thread (.leaving none))
  -- The list is empty, and the consumer waits.
  | wait {thread : Thread} {monitor : ConditionSystem Thread}
      (consumes : sys.stage thread = .removing ∨ sys.stage thread = .retrying)
      (empty : sys.list = []) (went : sys.monitor.step (.wait thread) = some monitor) :
      Steps sys (.test thread) ({ sys with monitor }.move thread .retrying)
  | take {thread : Thread} {item : Item} {rest : List Item}
      (consumes : sys.stage thread = .removing ∨ sys.stage thread = .retrying)
      (free : sys.monitor.free thread = true) (list : sys.list = item :: rest) :
      Steps sys (.test thread)
        ({ sys with
          list := rest
          removed := sys.removed ++ [item] }.move thread (.leaving (some item)))

/-- A step does what its case says, and the guards of the case hold. -/
theorem SynchListSystem.step_cases {sys next : SynchListSystem Thread Item}
    {event : SynchListEvent Thread Item} (stepped : sys.step event = some next) :
    sys.Steps event next := by
  -- By cases on the event, and then on the stage where it can happen.
  cases event with
  | append thread item | removeFront thread =>
    cases stage : sys.stage thread with
    | idle =>
      -- A call begins in a thread that is in none.
      simp only [step, stage, Option.some.injEq] at stepped
      subst stepped
      constructor
      exact stage
    | _ => simp [step, stage] at stepped
  | lock piece =>
    -- A piece of the lock, or of Wait, goes to the condition below.
    simp only [step, Option.ite_none_right_eq_some, Option.map_eq_some_iff] at stepped
    obtain ⟨allowed, monitor, went, rfl⟩ := stepped
    exact .lock allowed went
  | p thread =>
    simp only [step, Option.map_eq_some_iff] at stepped
    obtain ⟨monitor, went, rfl⟩ := stepped
    exact .p went
  | put thread =>
    cases stage : sys.stage thread with
    | appending item =>
      -- The item is put at the end, and Signal is called, in one turn.
      simp only [step, stage, Option.map_eq_some_iff] at stepped
      obtain ⟨monitor, went, rfl⟩ := stepped
      exact .put stage went
    | _ => simp [step, stage] at stepped
  | test thread =>
    -- A thread tests the list when it comes in, and again whenever it has been woken.
    have tested : (sys.stage thread = .removing ∨ sys.stage thread = .retrying) ∧
        sys.monitor.free thread = true ∧ sys.testList thread = some next := by
      cases stage : sys.stage thread with
      | removing | retrying => simpa [step, stage] using stepped
      | _ => simp [step, stage] at stepped
    obtain ⟨consumes, free, tested⟩ := tested
    cases list : sys.list with
    -- On an empty list the consumer waits.
    | nil =>
      simp only [testList, list, List.isEmpty_nil, if_true, Option.map_eq_some_iff] at tested
      obtain ⟨monitor, went, rfl⟩ := tested
      rw [← list]
      exact .wait consumes list went
    -- Otherwise it takes the front.
    | cons item rest =>
      simp only [testList, list, List.isEmpty_cons, Bool.false_eq_true, if_false,
        Nachos.removeFront, Option.some.injEq] at tested
      subst tested
      exact .take consumes free list

variable {sys next : SynchListSystem Thread Item}

omit [DecidableEq Thread] in
/-- A new list satisfies the invariant. -/
theorem SynchListSystem.invariant_new [Fintype Thread] :
    (new : SynchListSystem Thread Item).Invariant where
  monitored := ConditionSystem.invariant_new
  sound := rfl
  fifo := rfl
  waits := by simp [new, ConditionSystem.new, ConditionStage.waiter]
  signalled := by simp [new, ConditionSystem.new]

omit [DecidableEq Thread] in
/-- Consumers that were signalled before and after can only become more. -/
theorem SynchListSystem.signalled_card [Fintype Thread]
    (kept : ∀ thread, sys.Signalled thread → next.Signalled thread) :
    (Finset.univ.filter sys.Signalled).card ≤ (Finset.univ.filter next.Signalled).card := by
  refine Finset.card_le_card fun thread member => ?_
  rw [Finset.mem_filter] at member ⊢
  exact ⟨member.1, kept thread member.2⟩

/-- A consumer that leaves is at most one of those who were signalled. -/
theorem SynchListSystem.signalled_card_leave [Fintype Thread]
    (sys next : SynchListSystem Thread Item) (leaver : Thread)
    (kept : ∀ thread, thread ≠ leaver → sys.Signalled thread → next.Signalled thread) :
    (Finset.univ.filter sys.Signalled).card ≤ (Finset.univ.filter next.Signalled).card + 1 := by
  -- Everyone but the leaver is still signalled.
  have others : (Finset.univ.filter sys.Signalled).erase leaver ⊆
      Finset.univ.filter next.Signalled := by
    intro thread member
    obtain ⟨different, member⟩ := Finset.mem_erase.mp member
    rw [Finset.mem_filter] at member ⊢
    exact ⟨member.1, kept thread different member.2⟩
  have erased := Finset.pred_card_le_card_erase (a := leaver)
    (s := Finset.univ.filter sys.Signalled)
  have counted := Finset.card_le_card others
  omega

/-- A consumer that is signalled now, and was not, is one more. -/
theorem SynchListSystem.signalled_card_wake [Fintype Thread]
    (sys next : SynchListSystem Thread Item) (woken : Thread)
    (asleep : ¬ sys.Signalled woken) (awake : next.Signalled woken)
    (kept : ∀ thread, sys.Signalled thread → next.Signalled thread) :
    (Finset.univ.filter sys.Signalled).card + 1 ≤ (Finset.univ.filter next.Signalled).card := by
  have absent : woken ∉ Finset.univ.filter sys.Signalled := by simp [asleep]
  -- Those signalled before still are, and the thread that is woken is one more.
  have grown : insert woken (Finset.univ.filter sys.Signalled) ⊆
      Finset.univ.filter next.Signalled := by
    intro thread member
    rcases Finset.mem_insert.mp member with same | member
    · -- The woken thread is signalled, whether or not it was before.
      subst same
      simp [awake]
    · rw [Finset.mem_filter] at member ⊢
      exact ⟨member.1, kept thread member.2⟩
  have counted := Finset.card_le_card grown
  rwa [Finset.card_insert_of_notMem absent] at counted

omit [DecidableEq Thread] in
/-- The end of `Release` ends a call, and changes nothing for those who retry. -/
theorem SynchListStage.after_retries (piece : LockEvent Thread) (stage : SynchListStage Item) :
    (stage.after piece).retries = stage.retries := by
  cases piece <;> cases stage <;> rfl

omit [DecidableEq Thread] in
/-- A step that signals nobody and changes neither the list nor who retries keeps the invariant. -/
theorem SynchListSystem.Invariant.keep [Fintype Thread] (inv : sys.Invariant)
    {monitor : ConditionSystem Thread} {stage : Thread → SynchListStage Item}
    (monitored : monitor.Invariant) (queue : monitor.waitQueue = sys.monitor.waitQueue)
    (begins : ∀ thread waiter, (monitor.stage thread).waiter = some waiter →
      (sys.monitor.stage thread).waiter = some waiter)
    (same : ∀ thread, (stage thread).retries = (sys.stage thread).retries) :
    ({ sys with monitor, stage } : SynchListSystem Thread Item).Invariant := by
  refine ⟨monitored, inv.sound, inv.fifo, fun thread waits => ?_, fun waits => ?_⟩
  · -- Whoever waits after the step waited before it.
    obtain ⟨waiter, waits⟩ := Option.ne_none_iff_exists'.mp waits
    rw [same]
    exact inv.waits thread (by rw [begins thread waiter waits]; simp)
  · refine (inv.signalled (queue ▸ waits)).trans (signalled_card fun thread signalled => ?_)
    -- Who is parked after the step was parked before it.
    refine ⟨(same thread).trans signalled.1, fun ⟨waiter, queued, waits⟩ => signalled.2 ?_⟩
    rw [queue] at queued
    exact ⟨waiter, queued, begins thread waiter waits⟩

/-- An item that is put on the list goes to its end, and one more consumer is signalled for it. -/
theorem SynchListSystem.Invariant.put_step [Fintype Thread] (inv : sys.Invariant)
    {thread : Thread} {item : Item} {monitor : ConditionSystem Thread}
    (stage : sys.stage thread = .appending item)
    (went : sys.monitor.step (.signal thread) = some monitor) :
    ({ sys with
      monitor
      list := sys.list ++ [item]
      appended := sys.appended ++ [item] }.move thread (.leaving none)).Invariant := by
  -- The steps of the condition keep what holds of it.
  have monitored : monitor.Invariant := ConditionSystem.invariant_step inv.monitored went
  obtain ⟨holding, body, rfl⟩ := ConditionSystem.step_signal went
  have outside : (sys.monitor.stage thread).waiter = none := by rw [body]; rfl
  -- Nobody enters or leaves Wait through a Signal.
  have sameWaiter := inv.monitored.signal_waiter holding outside
  -- The producer itself is not one of those who retry.
  have retrying : ∀ {other}, (sys.stage other).retries = true →
      (({ sys with
        monitor := sys.monitor.signal thread
        list := sys.list ++ [item]
        appended := sys.appended ++ [item] }.move thread (.leaving none)).stage other).retries =
          true := by
    intro other retries
    have different : other ≠ thread := fun same => by
      rw [same, stage] at retries
      cases retries
    rw [move_stage_of_ne _ _ _ _ different]
    exact retries
  refine ⟨monitored, inv.sound, ?_, fun other waits => retrying (inv.waits other ?_), fun waits => ?_⟩
  · -- The item is at the end of both, the list and the record.
    change sys.removed ++ (sys.list ++ [item]) = sys.appended ++ [item]
    rw [← inv.fifo, List.append_assoc]
  · -- Who waits is as before.
    rw [← sameWaiter other]
    exact waits
  · -- With nobody parked the signal changes nothing, and nobody is parked after it.
    cases queue : sys.monitor.waitQueue with
    | nil => exact absurd (ConditionSystem.signal_nil queue) waits
    | cons front rest =>
      obtain ⟨owner, parked, -, result⟩ := inv.monitored.signal_cons holding outside queue
      have owns : (sys.monitor.stage owner).waiter = some front := by
        rcases parked with there | there <;> rw [there] <;> rfl
      have after : (sys.monitor.signal thread).waitQueue = rest := by rw [result]; rfl
      have absent : front ∉ rest := by
        have nodup := inv.monitored.nodup.2.1
        rw [queue] at nodup
        exact (List.nodup_cons.mp nodup).1
      have before := inv.signalled (by rw [queue]; simp)
      -- The owner of the front semaphore was parked, and now is signalled.
      -- Three things are left: the owner was parked, it is not now, and the others stay signalled.
      refine le_trans ?_ (signalled_card_wake sys _ owner ?_ ?_ ?_)
      · simpa using before
      · -- It was parked, so it was not signalled.
        exact fun signalled => signalled.2 ⟨front, by simp [queue], owns⟩
      · -- Its semaphore is off the queue, so it is not parked any more.
        refine ⟨retrying (inv.waits owner (by rw [owns]; simp)), fun ⟨waiter, queued, waits⟩ => ?_⟩
        rw [move_monitor, after] at queued
        rw [move_monitor, sameWaiter owner, owns, Option.some.injEq] at waits
        exact absent (waits ▸ queued)
      · -- Whoever is parked after the step was parked before it.
        refine fun other signalled => ⟨retrying signalled.1, fun ⟨waiter, queued, waits⟩ => ?_⟩
        rw [move_monitor, after] at queued
        rw [move_monitor, sameWaiter other] at waits
        exact signalled.2 ⟨waiter, by simp [queue, queued], waits⟩

/-- A consumer that finds the list empty, and calls `Wait`, keeps the invariant. -/
theorem SynchListSystem.Invariant.wait_step [Fintype Thread] (inv : sys.Invariant)
    {thread : Thread} {monitor : ConditionSystem Thread} (empty : sys.list = [])
    (went : sys.monitor.step (.wait thread) = some monitor) :
    ({ sys with monitor }.move thread .retrying).Invariant := by
  have monitored : monitor.Invariant := ConditionSystem.invariant_step inv.monitored went
  obtain ⟨-, -, rfl⟩ := ConditionSystem.step_wait went
  refine ⟨monitored, inv.sound, inv.fifo, fun other waits => ?_, fun _ => ?_⟩
  · -- The caller retries from now on, and the others do if they did.
    by_cases same : other = thread
    · rw [same, move_stage_self]
      rfl
    · rw [move_monitor, ConditionSystem.wait_stage same] at waits
      rw [move_stage_of_ne _ _ _ _ same]
      exact inv.waits other waits
  · -- The list is empty, so that nothing is owed to anyone.
    rw [move_list, empty]
    exact Nat.zero_le _

/-- A consumer that takes the front of the list keeps the invariant. -/
theorem SynchListSystem.Invariant.take_step [Fintype Thread] (inv : sys.Invariant)
    {thread : Thread} {item : Item} {rest : List Item} (free : sys.monitor.free thread = true)
    (list : sys.list = item :: rest) :
    ({ sys with
      list := rest
      removed := sys.removed ++ [item] }.move thread (.leaving (some item))).Invariant := by
  have body := (ConditionSystem.free_iff.mp free).2
  refine ⟨inv.monitored, inv.sound, ?_, fun other waits => ?_, fun waits => ?_⟩
  · -- The front moves from the list to the record.
    rw [← inv.fifo, list]
    exact List.append_assoc _ _ _
  · -- The consumer itself is out of Wait.
    have different : other ≠ thread := fun same => by
      rw [move_monitor, same, body] at waits
      exact waits rfl
    rw [move_stage_of_ne _ _ _ _ different]
    exact inv.waits other waits
  · have before := inv.signalled waits
    rw [list, List.length_cons] at before
    -- The item is gone, and so is at most one of those who were signalled for it.
    have left := sys.signalled_card_leave ({ sys with
      list := rest
      removed := sys.removed ++ [item] }.move thread (.leaving (some item))) thread
      fun other different signalled => by
        refine ⟨?_, signalled.2⟩
        rw [move_stage_of_ne _ _ _ _ different]
        exact signalled.1
    rw [move_list]
    dsimp only at left ⊢
    omega

/-- Every step keeps the invariant. -/
theorem SynchListSystem.invariant_step [Fintype Thread] {event : SynchListEvent Thread Item}
    (inv : sys.Invariant) (stepped : sys.step event = some next) : next.Invariant := by
  -- By cases on what the step does.
  cases step_cases stepped with
  | @append thread _ idle | @removeFront thread idle =>
    -- A call begins: its thread does not retry before or after.
    refine inv.keep inv.monitored rfl (fun _ _ => id) fun other => ?_
    by_cases same : other = thread
    · rw [same, Function.update_self, idle]
      rfl
    · rw [Function.update_of_ne same]
  | @lock piece monitor allowed went =>
    -- A piece of the lock moves the condition, and not who retries.
    obtain ⟨queue, begins, -⟩ := inv.monitored.inner_step (.inl ⟨piece, rfl⟩) went
    refine inv.keep (ConditionSystem.invariant_step inv.monitored went) queue begins fun other => ?_
    by_cases same : other = piece.thread
    · rw [same, Function.update_self, SynchListStage.after_retries]
    · rw [Function.update_of_ne same]
  | @p thread monitor went =>
    -- A test inside P moves the condition, and not who retries.
    obtain ⟨queue, begins, -⟩ := inv.monitored.inner_step (.inr ⟨thread, rfl⟩) went
    exact inv.keep (ConditionSystem.invariant_step inv.monitored went) queue begins fun _ => rfl
  -- The three steps that touch the list.
  | put appending went => exact inv.put_step appending went
  | wait consumes empty went => exact inv.wait_step empty went
  | take consumes free list => exact inv.take_step free list

/--
A synchronized list is a queue, in every interleaving of producers and consumers.

What was removed and what is still there is what was appended, in order; the front of an empty list
is never removed; and while a consumer is parked, the consumers that were signalled and are yet to
test the list are enough for the items on it.
-/
theorem synchList_fifo [Fintype Thread] (events : List (SynchListEvent Thread Item))
    (sys : SynchListSystem Thread Item)
    (reached : replay SynchListSystem.step .new events = some sys) :
    sys.removed ++ sys.list = sys.appended ∧
    sys.aborted = false ∧
    ∀ thread, sys.Parked thread →
      sys.list.length ≤ (Finset.univ.filter sys.Signalled).card := by
  -- The invariant holds in every state that can be reached.
  have inv : sys.Invariant :=
    replay_invariant (fun _ _ _ => SynchListSystem.invariant_step) SynchListSystem.invariant_new
      reached
  refine ⟨inv.fifo, inv.sound, fun thread ⟨waiter, queued, _⟩ => inv.signalled fun empty => ?_⟩
  -- A parked consumer is queued, so the queue is not empty.
  rw [empty] at queued
  cases queued

/-- A consumer is signalled for an item that a late consumer takes, and parks again. -/
theorem synchList_fifo_stolen :
    ∃ sys : SynchListSystem (Fin 3) Nat,
      replay SynchListSystem.step .new
        [.removeFront 0, .lock (.acquire 0), .lock (.p 0), .lock (.hold 0), .test 0,
          .lock (.release 0), .lock (.v 0), .p 0,
          .append 1 7, .lock (.acquire 1), .lock (.p 1), .lock (.hold 1), .put 1,
          .lock (.release 1), .lock (.v 1),
          .removeFront 2, .lock (.acquire 2), .lock (.p 2), .lock (.hold 2), .test 2,
          .lock (.release 2), .lock (.v 2),
          .p 0, .lock (.acquire 0), .lock (.p 0), .lock (.hold 0), .test 0] = some sys ∧
      sys.Parked 0 ∧ sys.removed ++ sys.list = sys.appended := by
  -- The run is evaluated, and the theorem says the rest.
  refine ⟨_, rfl, by decide, ?_⟩
  exact (synchList_fifo
    [.removeFront 0, .lock (.acquire 0), .lock (.p 0), .lock (.hold 0), .test 0,
      .lock (.release 0), .lock (.v 0), .p 0,
      .append 1 7, .lock (.acquire 1), .lock (.p 1), .lock (.hold 1), .put 1,
      .lock (.release 1), .lock (.v 1),
      .removeFront 2, .lock (.acquire 2), .lock (.p 2), .lock (.hold 2), .test 2,
      .lock (.release 2), .lock (.v 2),
      .p 0, .lock (.acquire 0), .lock (.p 0), .lock (.hold 0), .test 0] _ rfl).1

end

end Nachos
