import Nachos.Threads.Lock

/-! Condition variables with Mesa semantics: one semaphore for each call of `Wait`. -/

namespace Nachos

section

variable {Thread : Type} [DecidableEq Thread]

/-- Where a thread stands with respect to the condition. -/
inductive ConditionStage
  | body
  -- Inside Wait: its semaphore is queued, and Release has not returned.
  | unlocking (waiter : Nat)
  -- Inside Wait, in front of the test in P of its semaphore.
  | waiting (waiter : Nat)
  -- Inside Wait, asleep in P of its semaphore.
  | parked (waiter : Nat)
  -- Inside Wait: P has returned, and Acquire has not.
  | relocking (waiter : Nat)
  -- Inside the loop of Broadcast, with what was released and what was queued when it began.
  | broadcasting (released queued : List Nat)
  deriving DecidableEq, Repr

/-- The semaphore of the `Wait` that the thread is in. -/
def ConditionStage.waiter : ConditionStage → Option Nat
  | .unlocking waiter | .waiting waiter | .parked waiter | .relocking waiter => some waiter
  | .body | .broadcasting _ _ => none

/--
One lock and one condition, and how far each thread is in its calls.

The semaphores that `Wait` makes are numbered in the order in which they are made.
-/
structure ConditionSystem (Thread : Type) where
  lock : LockSystem Thread
  waitQueue : List Nat
  semaphores : Nat → Semaphore Thread
  stage : Thread → ConditionStage
  -- How many semaphores Wait has made.
  created : Nat
  -- The semaphores of which V was called, in the order of the calls, for the record only.
  released : List Nat
  -- An assertion has failed.
  aborted : Bool

/-- The constructors of the lock and the condition: no one is waiting. -/
def ConditionSystem.new : ConditionSystem Thread :=
  { lock := .new, waitQueue := [], semaphores := fun _ => .new 0, stage := fun _ => .body,
    created := 0, released := [], aborted := false }

/-- The thread moves on to another stage. -/
def ConditionSystem.move (sys : ConditionSystem Thread) (thread : Thread)
    (stage : ConditionStage) : ConditionSystem Thread :=
  { sys with stage := Function.update sys.stage thread stage }

/-- The semaphore with this number changes. -/
def ConditionSystem.store (sys : ConditionSystem Thread) (waiter : Nat)
    (semaphore : Semaphore Thread) : ConditionSystem Thread :=
  { sys with semaphores := Function.update sys.semaphores waiter semaphore }

/-- `Wait` up to the call of `Release`: check the lock, make a semaphore and queue it. -/
def ConditionSystem.wait (sys : ConditionSystem Thread) (currentThread : Thread) :
    ConditionSystem Thread :=
  if sys.lock.isHeldBy currentThread then
    ({ sys with
      waitQueue := sys.waitQueue ++ [sys.created]
      created := sys.created + 1 }.store sys.created (.new 0)).move
        currentThread (.unlocking sys.created)
  else { sys with aborted := true }

/-- `Signal`: check the lock, and release the front of the queue, if there is one. -/
def ConditionSystem.signal (sys : ConditionSystem Thread) (currentThread : Thread) :
    ConditionSystem Thread :=
  if sys.lock.isHeldBy currentThread then
    match sys.waitQueue with
    | [] => sys
    | waiter :: rest =>
      let fired := { sys with waitQueue := rest, released := sys.released ++ [waiter] }
      match (sys.semaphores waiter).v with
      | (semaphore, none) => fired.store waiter semaphore
      | (semaphore, some woken) => (fired.store waiter semaphore).move woken (.waiting waiter)
  else { sys with aborted := true }

/-- The calls of the lock that a thread makes where it stands; the others go on inside one. -/
def ConditionStage.allows : LockEvent Thread → ConditionStage → Bool
  | .acquire _, .body | .acquire _, .relocking _ => true
  | .release _, .body | .release _, .unlocking _ => true
  | .acquire _, _ | .release _, _ => false
  | .p _, _ | .hold _, _ | .v _, _ => true

/-- Where a step of the lock takes the thread: `Wait` goes on when `Release` or `Acquire` returns. -/
def ConditionStage.after : LockEvent Thread → ConditionStage → ConditionStage
  | .v _, .unlocking waiter => .waiting waiter
  | .hold _, .relocking _ => .body
  | _, stage => stage

/-- The pieces of the calls between which another thread may run. -/
inductive ConditionEvent (Thread : Type)
  -- Acquire or Release, called by the thread itself or inside Wait.
  | lock (event : LockEvent Thread)
  -- Wait is called.
  | wait (thread : Thread)
  -- P inside Wait tests the value.
  | p (thread : Thread)
  | signal (thread : Thread)
  -- Broadcast is called.
  | broadcast (thread : Thread)
  -- One turn of the loop in Broadcast.
  | loop (thread : Thread)

/-- The thread has the lock and is in none of the calls. -/
def ConditionSystem.free (sys : ConditionSystem Thread) (thread : Thread) : Bool :=
  sys.lock.stage thread = .holding && sys.stage thread = .body

/-- One step of one thread, refused when the thread is not there. -/
def ConditionSystem.step (sys : ConditionSystem Thread) :
    ConditionEvent Thread → Option (ConditionSystem Thread)
  | .lock event =>
    if (sys.stage event.thread).allows event then
      (sys.lock.step event).map fun lock =>
        { sys with lock }.move event.thread ((sys.stage event.thread).after event)
    else none
  | .wait thread => if sys.free thread then some (sys.wait thread) else none
  | .p thread =>
    match sys.stage thread with
    | .waiting waiter =>
      match (sys.semaphores waiter).test thread with
      | (semaphore, true) => some ((sys.store waiter semaphore).move thread (.relocking waiter))
      | (semaphore, false) => some ((sys.store waiter semaphore).move thread (.parked waiter))
    | _ => none
  | .signal thread => if sys.free thread then some (sys.signal thread) else none
  | .broadcast thread =>
    if sys.free thread then some (sys.move thread (.broadcasting sys.released sys.waitQueue))
    else none
  | .loop thread =>
    match sys.stage thread with
    | .broadcasting _ _ =>
      if sys.waitQueue = [] then some (sys.move thread .body) else some (sys.signal thread)
    | _ => none

section

variable (sys : ConditionSystem Thread) (thread other : Thread) (stage : ConditionStage)
  (waiter mark : Nat) (semaphore : Semaphore Thread)

@[simp] theorem ConditionSystem.move_lock : (sys.move thread stage).lock = sys.lock := rfl

@[simp] theorem ConditionSystem.move_waitQueue :
    (sys.move thread stage).waitQueue = sys.waitQueue := rfl

@[simp] theorem ConditionSystem.move_semaphores :
    (sys.move thread stage).semaphores = sys.semaphores := rfl

@[simp] theorem ConditionSystem.move_created :
    (sys.move thread stage).created = sys.created := rfl

@[simp] theorem ConditionSystem.move_released :
    (sys.move thread stage).released = sys.released := rfl

@[simp] theorem ConditionSystem.move_aborted :
    (sys.move thread stage).aborted = sys.aborted := rfl

@[simp] theorem ConditionSystem.move_stage_self :
    (sys.move thread stage).stage thread = stage := by
  simp [move]

@[simp] theorem ConditionSystem.move_stage_of_ne (different : other ≠ thread) :
    (sys.move thread stage).stage other = sys.stage other := by
  simp [move, different]

/-- A thread may move to where it is. -/
theorem ConditionSystem.move_stage (there : sys.stage thread = stage) :
    sys.move thread stage = sys := by
  rw [move, ← there, Function.update_eq_self]

omit [DecidableEq Thread] in
@[simp] theorem ConditionSystem.store_lock : (sys.store waiter semaphore).lock = sys.lock := rfl

omit [DecidableEq Thread] in
@[simp] theorem ConditionSystem.store_waitQueue :
    (sys.store waiter semaphore).waitQueue = sys.waitQueue := rfl

omit [DecidableEq Thread] in
@[simp] theorem ConditionSystem.store_stage :
    (sys.store waiter semaphore).stage = sys.stage := rfl

omit [DecidableEq Thread] in
@[simp] theorem ConditionSystem.store_created :
    (sys.store waiter semaphore).created = sys.created := rfl

omit [DecidableEq Thread] in
@[simp] theorem ConditionSystem.store_released :
    (sys.store waiter semaphore).released = sys.released := rfl

omit [DecidableEq Thread] in
@[simp] theorem ConditionSystem.store_aborted :
    (sys.store waiter semaphore).aborted = sys.aborted := rfl

omit [DecidableEq Thread] in
@[simp] theorem ConditionSystem.store_semaphores_self :
    (sys.store waiter semaphore).semaphores waiter = semaphore := by
  simp [store]

omit [DecidableEq Thread] in
@[simp] theorem ConditionSystem.store_semaphores_of_ne (different : mark ≠ waiter) :
    (sys.store waiter semaphore).semaphores mark = sys.semaphores mark := by
  simp [store, different]

end

end

end Nachos
