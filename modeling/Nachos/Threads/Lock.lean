import Nachos.Threads.Semaphore

/-! Locks: a semaphore of value one, and a holder that is written outside its atomic parts. -/

namespace Nachos

section

variable {Thread : Type} [DecidableEq Thread]

/-- Where a thread stands with respect to the lock. -/
inductive LockStage
  | outside
  -- Inside P of Acquire, about to test the value.
  | acquiring
  -- Inside P of Acquire, queued and asleep.
  | asleep
  -- P has returned, and lockHolder is not assigned yet.
  | granted
  -- Acquire has returned.
  | holding
  -- Release has cleared lockHolder, and V is not called yet.
  | vacated
  deriving DecidableEq, Repr

/-- A completed `P` of the lock's semaphore has not been answered by its `V`. -/
def LockStage.pastP : LockStage → Bool
  | .granted | .holding | .vacated => true
  | .outside | .acquiring | .asleep => false

/-- One lock, and how far each thread is in its `Acquire` or `Release`. -/
structure LockSystem (Thread : Type) where
  semaphore : Semaphore Thread
  lockHolder : Option Thread
  stage : Thread → LockStage
  -- An assertion has failed.
  aborted : Bool

/-- The constructor: initially unlocked. -/
def LockSystem.new : LockSystem Thread :=
  { semaphore := .new 1, lockHolder := none, stage := fun _ => .outside, aborted := false }

/-- `IsHeldByCurrentThread`. -/
def LockSystem.isHeldBy (sys : LockSystem Thread) (currentThread : Thread) : Bool :=
  sys.lockHolder = some currentThread

/-- The pieces of `Acquire` and `Release` between which another thread may run. -/
inductive LockEvent (Thread : Type)
  -- Acquire is called.
  | acquire (thread : Thread)
  -- P tests the value, the first time or after a wake-up.
  | p (thread : Thread)
  -- Acquire assigns lockHolder and returns.
  | hold (thread : Thread)
  -- Release is called: its assertion, and the assignment that clears lockHolder.
  | release (thread : Thread)
  -- Release calls V and returns.
  | v (thread : Thread)

/-- The thread that takes the step. -/
def LockEvent.thread : LockEvent Thread → Thread
  | .acquire thread | .p thread | .hold thread | .release thread | .v thread => thread

/-- The thread moves on to another stage. -/
def LockSystem.move (sys : LockSystem Thread) (thread : Thread) (stage : LockStage) :
    LockSystem Thread :=
  { sys with stage := Function.update sys.stage thread stage }

/-- One step of one thread, refused when the thread is not there. -/
def LockSystem.step (sys : LockSystem Thread) : LockEvent Thread → Option (LockSystem Thread)
  | .acquire thread =>
    if sys.stage thread = .outside then some (sys.move thread .acquiring) else none
  | .p thread =>
    if sys.stage thread = .acquiring then
      match sys.semaphore.test thread with
      | (semaphore, true) => some ({ sys with semaphore }.move thread .granted)
      | (semaphore, false) => some ({ sys with semaphore }.move thread .asleep)
    else none
  | .hold thread =>
    if sys.stage thread = .granted then
      some ({ sys with lockHolder := some thread }.move thread .holding)
    else none
  | .release thread =>
    if sys.stage thread = .holding then
      if sys.isHeldBy thread then some ({ sys with lockHolder := none }.move thread .vacated)
      else some { sys with aborted := true }
    else none
  | .v thread =>
    if sys.stage thread = .vacated then
      match sys.semaphore.v with
      | (semaphore, none) => some ({ sys with semaphore }.move thread .outside)
      -- The woken thread tests the value again when it is dispatched.
      | (semaphore, some woken) =>
        some (({ sys with semaphore }.move woken .acquiring).move thread .outside)
    else none

section

variable (sys : LockSystem Thread) (thread other : Thread) (stage : LockStage)

@[simp] theorem LockSystem.move_semaphore :
    (sys.move thread stage).semaphore = sys.semaphore := rfl

@[simp] theorem LockSystem.move_lockHolder :
    (sys.move thread stage).lockHolder = sys.lockHolder := rfl

@[simp] theorem LockSystem.move_aborted : (sys.move thread stage).aborted = sys.aborted := rfl

@[simp] theorem LockSystem.move_stage_self : (sys.move thread stage).stage thread = stage := by
  simp [move]

@[simp] theorem LockSystem.move_stage_of_ne (different : other ≠ thread) :
    (sys.move thread stage).stage other = sys.stage other := by
  simp [move, different]

end

end

end Nachos
