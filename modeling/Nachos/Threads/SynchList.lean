import Nachos.Lib.List
import Nachos.Threads.Condition

/-! Synchronized lists: a list behind a lock, with a condition for those who find it empty. -/

namespace Nachos

section

variable {Thread Item : Type} [DecidableEq Thread]

/-- Where a thread stands in its call of `Append` or `RemoveFront`. -/
inductive SynchListStage (Item : Type)
  | idle
  -- In Append, up to the change of the list.
  | appending (item : Item)
  -- In RemoveFront, up to the first test of the list.
  | removing
  -- In RemoveFront, in Wait or back from it, up to the next test of the list.
  | retrying
  -- In Release at the end of the call, with what RemoveFront is to return.
  | leaving (result : Option Item)

/-- One synchronized list, and how far each thread is in its call. -/
structure SynchListSystem (Thread Item : Type) where
  -- The lock and the condition listEmpty.
  monitor : ConditionSystem Thread
  list : List Item
  stage : Thread → SynchListStage Item
  -- What was put on the list and taken off it, in the order of the critical sections.
  appended : List Item
  removed : List Item
  -- An assertion of the list has failed.
  aborted : Bool

/-- The constructor: empty to start with. -/
def SynchListSystem.new : SynchListSystem Thread Item :=
  { monitor := .new, list := [], stage := fun _ => .idle, appended := [], removed := [],
    aborted := false }

/-- The thread moves on to another stage. -/
def SynchListSystem.move (sys : SynchListSystem Thread Item) (thread : Thread)
    (stage : SynchListStage Item) : SynchListSystem Thread Item :=
  { sys with stage := Function.update sys.stage thread stage }

/--
The pieces of the calls between which another thread may run.

The kernel switches threads only where interrupts come on again, at the end of `P` and of `V`.
-/
inductive SynchListEvent (Thread Item : Type)
  -- Append is called.
  | append (thread : Thread) (item : Item)
  -- RemoveFront is called.
  | removeFront (thread : Thread)
  -- A piece of Acquire or Release, called by the thread itself or inside Wait.
  | lock (piece : LockEvent Thread)
  -- P inside Wait tests the value.
  | p (thread : Thread)
  -- Append has the lock: the item goes on the list, and a waiter is signalled.
  | put (thread : Thread)
  -- RemoveFront has the lock: it tests the list, and removes the front or calls Wait.
  | test (thread : Thread)

/-- The calls of the lock that a thread makes where it stands; the others go on inside one. -/
def SynchListSystem.allows (sys : SynchListSystem Thread Item) : LockEvent Thread → Bool
  | .acquire thread =>
    match sys.stage thread with
    | .appending _ | .removing | .retrying => true
    | .idle | .leaving _ => false
  | .release thread =>
    match sys.stage thread with
    | .leaving _ => true
    | .retrying => (sys.monitor.stage thread).waiter.isSome
    | .idle | .appending _ | .removing => false
  | .p _ | .hold _ | .v _ => true

/-- The return from `Release` at the end of a call is the end of the call. -/
def SynchListStage.after : LockEvent Thread → SynchListStage Item → SynchListStage Item
  | .v _, .leaving _ => .idle
  | _, stage => stage

/-- The test of `RemoveFront` and what follows it under the lock. -/
def SynchListSystem.testList (sys : SynchListSystem Thread Item) (currentThread : Thread) :
    Option (SynchListSystem Thread Item) :=
  if sys.list.isEmpty then
    (sys.monitor.step (.wait currentThread)).map fun monitor =>
      { sys with monitor }.move currentThread .retrying
  else
    match Nachos.removeFront sys.list with
    | some (item, list) =>
      some ({ sys with list, removed := sys.removed ++ [item] }.move currentThread
        (.leaving (some item)))
    | none => some { sys with aborted := true }

/-- One step of one thread, refused when the thread is not there. -/
def SynchListSystem.step (sys : SynchListSystem Thread Item) :
    SynchListEvent Thread Item → Option (SynchListSystem Thread Item)
  | .append thread item =>
    match sys.stage thread with
    | .idle => some (sys.move thread (.appending item))
    | _ => none
  | .removeFront thread =>
    match sys.stage thread with
    | .idle => some (sys.move thread .removing)
    | _ => none
  | .lock piece =>
    if sys.allows piece then
      (sys.monitor.step (.lock piece)).map fun monitor =>
        { sys with monitor }.move piece.thread ((sys.stage piece.thread).after piece)
    else none
  | .p thread => (sys.monitor.step (.p thread)).map fun monitor => { sys with monitor }
  | .put thread =>
    match sys.stage thread with
    | .appending item =>
      (sys.monitor.step (.signal thread)).map fun monitor =>
        { sys with
          monitor
          list := sys.list ++ [item]
          appended := sys.appended ++ [item] }.move thread (.leaving none)
    | _ => none
  | .test thread =>
    match sys.stage thread with
    | .removing | .retrying => if sys.monitor.free thread then sys.testList thread else none
    | _ => none

section

variable (sys : SynchListSystem Thread Item) (thread other : Thread) (stage : SynchListStage Item)

@[simp] theorem SynchListSystem.move_monitor :
    (sys.move thread stage).monitor = sys.monitor := rfl

@[simp] theorem SynchListSystem.move_list : (sys.move thread stage).list = sys.list := rfl

@[simp] theorem SynchListSystem.move_stage_self :
    (sys.move thread stage).stage thread = stage := by
  simp [move]

@[simp] theorem SynchListSystem.move_stage_of_ne (different : other ≠ thread) :
    (sys.move thread stage).stage other = sys.stage other := by
  simp [move, different]

end

end

end Nachos
