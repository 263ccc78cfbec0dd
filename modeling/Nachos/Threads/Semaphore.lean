import Mathlib.Logic.Function.Basic
import Nachos.Theory.Run

/-! Semaphores under every interleaving of `P` and `V`, down to the sleep inside `P`. -/

namespace Nachos

/-- The states of a thread control block. -/
inductive ThreadStatus
  | justCreated
  | running
  | ready
  | blocked
  | zommbie
  deriving DecidableEq, Repr

section

variable {Thread : Type} [DecidableEq Thread]

/-- A counter, and the threads parked in `P` until it is positive. -/
structure Semaphore (Thread : Type) where
  value : Int
  queue : List Thread

/-- The constructor: nobody waits yet. -/
def Semaphore.new (initialValue : Int) : Semaphore Thread :=
  { value := initialValue, queue := [] }

/--
One test of the loop condition in `P`, with interrupts off.

The answer says whether the unit was taken. Otherwise the thread has queued itself and sleeps.
-/
def Semaphore.test (sem : Semaphore Thread) (currentThread : Thread) : Semaphore Thread × Bool :=
  if sem.value = 0 then ({ sem with queue := sem.queue ++ [currentThread] }, false)
  else ({ sem with value := sem.value - 1 }, true)

/-- `V`: hand the front of the queue to `ReadyToRun`, if there is one, and count up. -/
def Semaphore.v (sem : Semaphore Thread) : Semaphore Thread × Option Thread :=
  match sem.queue with
  | [] => ({ sem with value := sem.value + 1 }, none)
  | front :: rest => ({ value := sem.value + 1, queue := rest }, some front)

/-- One semaphore together with what its `P` and `V` change in the threads that call them. -/
structure SemaphoreSystem (Thread : Type) where
  sem : Semaphore Thread
  status : Thread → ThreadStatus
  -- The thread has called P, which has not returned yet.
  insideP : Thread → Bool
  -- How often V was called and how often P has returned, for the record only.
  vCalls : Nat
  pReturns : Nat

/-- A new semaphore among threads that have not called it. -/
def SemaphoreSystem.start (initialValue : Int) (status : Thread → ThreadStatus) :
    SemaphoreSystem Thread :=
  { sem := .new initialValue, status, insideP := fun _ => false, vCalls := 0, pReturns := 0 }

/-- What can happen next, in any order. -/
inductive SemaphoreEvent (Thread : Type)
  -- A running thread calls P, or is back from the sleep inside P and tests again.
  | p (thread : Thread)
  -- A thread or an interrupt handler calls V.
  | v
  -- The rest of the kernel dispatches, preempts or changes a thread that is not asleep here.
  | elsewhere (thread : Thread) (status : ThreadStatus)

/-- The thread sleeps inside `P`. -/
def SemaphoreSystem.Blocked (sys : SemaphoreSystem Thread) (thread : Thread) : Prop :=
  sys.insideP thread = true ∧ sys.status thread = .blocked

/-- `V` has taken the thread off the queue, and the thread has not tested the value again yet. -/
def SemaphoreSystem.Woken (sys : SemaphoreSystem Thread) (thread : Thread) : Prop :=
  sys.insideP thread = true ∧ sys.status thread ≠ .blocked

instance (sys : SemaphoreSystem Thread) : DecidablePred sys.Blocked :=
  fun _ => inferInstanceAs (Decidable (_ ∧ _))

instance (sys : SemaphoreSystem Thread) : DecidablePred sys.Woken :=
  fun _ => inferInstanceAs (Decidable (_ ∧ _))

/-- One atomic step, refused when the event cannot happen in this state. -/
def SemaphoreSystem.step (sys : SemaphoreSystem Thread) :
    SemaphoreEvent Thread → Option (SemaphoreSystem Thread)
  | .p thread =>
    if sys.status thread = .running then
      match sys.sem.test thread with
      | (sem, true) => some { sys with
          sem, insideP := Function.update sys.insideP thread false, pReturns := sys.pReturns + 1 }
      -- Sleep(FALSE) blocks the caller before anyone else runs.
      | (sem, false) => some { sys with
          sem
          insideP := Function.update sys.insideP thread true
          status := Function.update sys.status thread .blocked }
    else none
  | .v =>
    match sys.sem.v with
    | (sem, none) => some { sys with sem, vCalls := sys.vCalls + 1 }
    | (sem, some woken) => some { sys with
        sem, status := Function.update sys.status woken .ready, vCalls := sys.vCalls + 1 }
  | .elsewhere thread status =>
    -- Only V wakes a thread asleep here, and a woken one sleeps again only through its own test.
    if sys.Blocked thread ∨ (sys.insideP thread = true ∧ status = .blocked) then none
    else some { sys with status := Function.update sys.status thread status }

end

end Nachos
