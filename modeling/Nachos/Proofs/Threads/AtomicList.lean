import Nachos.Proofs.Threads.SynchList
import Nachos.Theory.Linearizable

/-! To the threads that share it, a synchronized list is a queue whose operations are atomic. -/

namespace Nachos

section

variable {Thread Item : Type} [DecidableEq Thread]

/-- The operations of a queue. -/
inductive QueueOp (Item : Type)
  | append (item : Item)
  | removeFront
  deriving DecidableEq, Repr

/-- An operation of a queue at one moment: there is nothing to remove from an empty one. -/
def QueueOp.perform : List Item → QueueOp Item → Option (Option Item × List Item)
  | queue, .append item => some (none, queue ++ [item])
  | [], .removeFront => none
  | item :: rest, .removeFront => some (some item, rest)

/-- How far a call is: a consumer that waits has had no effect yet. -/
def SynchListStage.phase : SynchListStage Item → CallPhase (QueueOp Item) (Option Item)
  | .idle => .idle
  | .appending item => .called (.append item)
  | .removing | .retrying => .called .removeFront
  | .leaving result => .done result

namespace SynchListSystem

/-- What is seen of a step: calls, and returns from `Release` at the end of a call. -/
def observe (sys : SynchListSystem Thread Item) : SynchListEvent Thread Item →
    SynchListSystem Thread Item → List (Action Thread (QueueOp Item) (Option Item))
  | .append thread item, _ => [.call thread (.append item)]
  | .removeFront thread, _ => [.call thread .removeFront]
  | .lock (.v thread), _ =>
    match sys.stage thread with
    | .leaving result => [.ret thread result]
    | _ => []
  | _, _ => []

/-- The atomic queue behind the list. -/
def atomic (sys : SynchListSystem Thread Item) :
    Atomic Thread (List Item) (QueueOp Item) (Option Item) :=
  .ofStages SynchListStage.phase sys.list sys.stage

variable {sys next : SynchListSystem Thread Item} {thread : Thread}

/-- The atomic queue follows a piece of the lock, which is seen only as the return of a call. -/
theorem follows_lock (piece : LockEvent Thread) (monitor : ConditionSystem Thread) :
    sys.atomic.Reaches QueueOp.perform (sys.observe (.lock piece) next)
      ({ sys with monitor }.move piece.thread ((sys.stage piece.thread).after piece)).atomic := by
  -- The return from `Release` is the return from the call.
  cases piece with
  | v thread =>
    -- The call returns if the thread was about to leave.
    cases stage : sys.stage thread with
    | leaving result =>
      simp only [observe, stage, LockEvent.thread, SynchListStage.after]
      exact .leave QueueOp.perform (by rw [stage]; rfl) rfl
    -- Otherwise `V` ends a piece inside the call, and nothing is seen of it.
    | _ =>
      simp only [observe, stage, LockEvent.thread, SynchListStage.after]
      exact .stay QueueOp.perform (by rw [stage])
  -- Every other piece leaves the stage as it is.
  | acquire thread | p thread | hold thread | release thread => exact .stay QueueOp.perform rfl

/-- The atomic queue follows every step. -/
theorem follows_step {event : SynchListEvent Thread Item} (stepped : sys.step event = some next) :
    sys.atomic.Reaches QueueOp.perform (sys.observe event next) next.atomic := by
  -- By cases on what the step does.
  cases step_cases stepped with
  -- A call begins.
  | append idle | removeFront idle => exact .enter QueueOp.perform (by rw [idle]; rfl) rfl
  -- A piece of the lock, or a test in P of the condition, has no effect on the list.
  | @lock piece monitor => exact follows_lock piece monitor
  | p => exact .refl QueueOp.perform sys.atomic
  -- The item is on the list: here the call has its effect.
  | put appending => exact .effect (by rw [appending]; rfl) rfl rfl
  | @wait thread _ consumes =>
    -- The consumer waits, which has no effect yet.
    have called : (sys.stage thread).phase = .called .removeFront := by
      rcases consumes with stage | stage <;> rw [stage] <;> rfl
    exact .stay QueueOp.perform called.symm
  | @take thread item rest consumes free list =>
    -- There is something, so that the call has its effect here.
    have called : (sys.stage thread).phase = .called .removeFront := by
      rcases consumes with stage | stage <;> rw [stage] <;> rfl
    unfold atomic
    rw [list]
    exact .effect called rfl rfl

end SynchListSystem

/--
A synchronized list is linearizable: it is a queue on which each call takes effect at one moment.

In every interleaving of producers and consumers, with every wait and wake-up, the results of
`RemoveFront` are those of some order of the calls made one after the other on a queue, in which
nobody removes from an empty queue, and which keeps to the order in which calls returned and began.
-/
theorem synchList_linearizable (events : List (SynchListEvent Thread Item))
    (sys : SynchListSystem Thread Item)
    (history : List (Action Thread (QueueOp Item) (Option Item)))
    (reached : replay (recording SynchListSystem.step SynchListSystem.observe)
      (.new, []) events = some (sys, history)) :
    Linearizable QueueOp.perform [] sys.list history :=
  linearizable_of_mapping SynchListSystem.atomic (fun _ => True)
    (fun _ _ _ _ _ => trivial) (fun _ _ _ _ => SynchListSystem.follows_step) trivial rfl reached

/-- The first consumer waits, and a late one takes the item that it was signalled for. -/
def lateConsumer : List (SynchListEvent (Fin 3) Nat) :=
  [.removeFront 0, .lock (.acquire 0), .lock (.p 0), .lock (.hold 0), .test 0,
    .lock (.release 0), .lock (.v 0), .p 0,
    .append 1 7, .lock (.acquire 1), .lock (.p 1), .lock (.hold 1), .put 1,
    .lock (.release 1), .lock (.v 1),
    .removeFront 2, .lock (.acquire 2), .lock (.p 2), .lock (.hold 2), .test 2,
    .lock (.release 2), .lock (.v 2)]

/-- The late consumer has returned the item, and the first one has not returned yet. -/
theorem synchList_linearizable_lateConsumer :
    ∃ sys history, replay (recording SynchListSystem.step SynchListSystem.observe) (.new, [])
        lateConsumer = some (sys, history) ∧
      history = [.call 0 .removeFront, .call 1 (.append 7), .ret 1 none, .call 2 .removeFront,
        .ret 2 (some 7)] ∧
      Linearizable QueueOp.perform [] sys.list history := by
  have seen : (replay (recording SynchListSystem.step SynchListSystem.observe) (.new, [])
      lateConsumer).map Prod.snd = some [.call 0 .removeFront, .call 1 (.append 7), .ret 1 none,
        .call 2 .removeFront, .ret 2 (some 7)] := by decide +kernel
  obtain ⟨⟨sys, history⟩, reached, same⟩ := Option.map_eq_some_iff.mp seen
  exact ⟨sys, history, reached, same, synchList_linearizable lateConsumer sys history reached⟩

end

end Nachos
