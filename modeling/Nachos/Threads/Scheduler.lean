import Nachos.Lib.List
import Nachos.Threads.Semaphore

/-! Threads and the scheduler: who runs, who is ready, and who waits where. -/

namespace Nachos

/-- A thread control block, known by the number of its allocation. -/
abbrev ThreadNumber := Nat

/-- What a thread that is off the processor does when it gets it back. -/
inductive Continuation
  -- Begin, and the function that was forked.
  | begins
  -- The return from Yield.
  | yields
  -- The loop in P of this semaphore.
  | tests (semaphore : Nat)
  deriving DecidableEq, Repr

/-- What the processor is doing. -/
inductive Phase
  -- The current thread executes its own code.
  | executing
  -- SWITCH has just brought the current thread back.
  | resuming
  -- The current thread is in the loop of Sleep, and looks for another to run.
  | sleeping (finishing : Bool)
  deriving DecidableEq, Repr

/-- Most threads at one time. -/
abbrev threadCountMax : Nat := 128

/-- The threads of the kernel, the scheduler and the semaphores. -/
structure ThreadSystem where
  -- How many thread control blocks have been allocated.
  created : Nat
  -- How many of them the thread manager counts.
  threadCnt : Nat
  status : ThreadNumber → ThreadStatus
  priority : ThreadNumber → Int
  continuation : ThreadNumber → Continuation
  -- Fork was called on the thread, which happens once.
  forked : ThreadNumber → Bool
  readyList : List ThreadNumber
  toBeDestroyed : Option ThreadNumber
  semaphores : Nat → Semaphore ThreadNumber
  currentThread : ThreadNumber
  phase : Phase
  -- An assertion has failed.
  aborted : Bool

/-- `Kernel::Initialize`: the main thread runs, and the semaphores have their first values. -/
def ThreadSystem.start (initialValue : Nat → Int) : ThreadSystem :=
  { created := 1, threadCnt := 1
    status := Function.update (fun _ => .justCreated) 0 .running
    priority := fun _ => 0, continuation := fun _ => .begins
    forked := Function.update (fun _ => false) 0 true
    readyList := [], toBeDestroyed := none
    semaphores := fun semaphore => .new (initialValue semaphore)
    currentThread := 0, phase := .executing, aborted := false }

/-- `setStatus`. -/
def ThreadSystem.setStatus (sys : ThreadSystem) (thread : ThreadNumber) (status : ThreadStatus) :
    ThreadSystem :=
  { sys with status := Function.update sys.status thread status }

/-- `ThreadPriorityCompare`: smaller numbers come first. -/
def ThreadSystem.priorityCompare (sys : ThreadSystem) (x y : ThreadNumber) : Int :=
  if sys.priority x < sys.priority y then -1
  else if sys.priority x > sys.priority y then 1
  else 0

/-- `createThread`: a new control block, unless there are too many threads. -/
def ThreadSystem.createThread (sys : ThreadSystem) : ThreadSystem :=
  if sys.threadCnt + 1 < threadCountMax then
    { sys with created := sys.created + 1, threadCnt := sys.threadCnt + 1 }
  else sys

/-- `ReadyToRun`: put the thread on the ready list, on which it must not be yet. -/
def ThreadSystem.readyToRun (sys : ThreadSystem) (thread : ThreadNumber) : ThreadSystem :=
  match sortedInsert sys.priorityCompare thread sys.readyList with
  | some readyList => { sys.setStatus thread .ready with readyList }
  | none => { sys with aborted := true }

/-- `Run`: dispatch the processor to another thread, up to the return from `SWITCH`. -/
def ThreadSystem.run (sys : ThreadSystem) (nextThread : ThreadNumber) (finishing : Bool) :
    ThreadSystem :=
  if finishing = true ∧ sys.toBeDestroyed ≠ none then { sys with aborted := true }
  else
    { sys.setStatus nextThread .running with
      toBeDestroyed := if finishing then some sys.currentThread else sys.toBeDestroyed
      currentThread := nextThread
      phase := .resuming }

/-- `Yield`: go to the end of the ready list, if anyone else is on it. -/
def ThreadSystem.yield (sys : ThreadSystem) : ThreadSystem :=
  match sys.readyList with
  | [] => sys
  | nextThread :: readyList =>
    ({ sys with
      readyList
      continuation := Function.update sys.continuation sys.currentThread .yields }.readyToRun
        sys.currentThread).run nextThread false

/-- `Fork` up to the call of `Yield`: the new thread is ready. -/
def ThreadSystem.started (sys : ThreadSystem) (thread : ThreadNumber) : ThreadSystem :=
  { sys with
    forked := Function.update sys.forked thread true
    continuation := Function.update sys.continuation thread .begins }.readyToRun thread

/-- `Fork`: the new thread is ready, and its creator yields. -/
def ThreadSystem.fork (sys : ThreadSystem) (thread : ThreadNumber) : ThreadSystem :=
  ({ sys with
    forked := Function.update sys.forked thread true
    continuation := Function.update sys.continuation thread .begins }.readyToRun thread).yield

/-- One test in `P`: take a unit, or queue up and enter `Sleep(FALSE)`. -/
def ThreadSystem.p (sys : ThreadSystem) (semaphore : Nat) : ThreadSystem :=
  match (sys.semaphores semaphore).test sys.currentThread with
  | (after, true) =>
    { sys with
      semaphores := Function.update sys.semaphores semaphore after
      phase := .executing }
  | (after, false) =>
    { sys.setStatus sys.currentThread .blocked with
      semaphores := Function.update sys.semaphores semaphore after
      continuation := Function.update sys.continuation sys.currentThread (.tests semaphore)
      phase := .sleeping false }

/-- `V`, called by the current thread or by an interrupt handler. -/
def ThreadSystem.v (sys : ThreadSystem) (semaphore : Nat) : ThreadSystem :=
  match (sys.semaphores semaphore).v with
  | (after, none) => { sys with semaphores := Function.update sys.semaphores semaphore after }
  | (after, some woken) =>
    { sys with semaphores := Function.update sys.semaphores semaphore after }.readyToRun woken

/-- `Finish`: the thread is done, and enters `Sleep(TRUE)`. -/
def ThreadSystem.finish (sys : ThreadSystem) : ThreadSystem :=
  { sys.setStatus sys.currentThread .zommbie with phase := .sleeping true }

/-- `CheckToBeDestroyed`: delete the carcass of the thread that ran before. -/
def ThreadSystem.checkToBeDestroyed (sys : ThreadSystem) : ThreadSystem :=
  match sys.toBeDestroyed with
  | none => sys
  | some _ => { sys with threadCnt := sys.threadCnt - 1, toBeDestroyed := none }

/-- The current thread goes on after `SWITCH`. -/
def ThreadSystem.resume (sys : ThreadSystem) : ThreadSystem :=
  let sys := sys.checkToBeDestroyed
  match sys.continuation sys.currentThread with
  | .begins | .yields => { sys with phase := .executing }
  | .tests semaphore => sys.p semaphore

/-- What can happen next. -/
inductive ThreadEvent
  | createThread
  | setPriority (thread : ThreadNumber) (priority : Int)
  | fork (thread : ThreadNumber)
  -- Called by the thread, or for it when a time slice ends.
  | yield
  | p (semaphore : Nat)
  | v (semaphore : Nat)
  | finish
  -- An interrupt handler calls V, also while the processor idles.
  | interrupt (semaphore : Nat)
  -- Sleep finds a thread to run.
  | dispatch
  -- The thread that was switched to goes on.
  | resume

/-- One step of the kernel, refused when it is not at that point or an assertion has failed. -/
def ThreadSystem.step (sys : ThreadSystem) (event : ThreadEvent) : Option ThreadSystem :=
  if sys.aborted then none
  else
    match sys.phase, event with
    | .executing, .createThread => some sys.createThread
    | .executing, .setPriority thread priority =>
      some { sys with priority := Function.update sys.priority thread priority }
    | .executing, .fork thread =>
      if thread < sys.created ∧ sys.forked thread = false then some (sys.fork thread) else none
    | .executing, .yield => some sys.yield
    | .executing, .p semaphore => some (sys.p semaphore)
    | .executing, .v semaphore => some (sys.v semaphore)
    | .executing, .finish => some sys.finish
    | .executing, .interrupt semaphore => some (sys.v semaphore)
    | .sleeping _, .interrupt semaphore => some (sys.v semaphore)
    | .sleeping finishing, .dispatch =>
      match sys.readyList with
      | [] => none
      | nextThread :: readyList => some ({ sys with readyList }.run nextThread finishing)
    | .resuming, .resume => some sys.resume
    | _, _ => none

end Nachos
