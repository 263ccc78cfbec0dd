import Nachos.Machine.Interrupt
import Nachos.Threads.Scheduler

/-! The interrupt level, with the calls that save it, and restore it after a context switch. -/

namespace Nachos

/-- What is left of a call once the call that it has made returns. -/
inductive Activation
  -- The end of Fork, Yield, P or V: set the level to the one that was saved, and return.
  | restores (oldLevel : IntStatus)
  -- The end of OneTick, after its Yield.
  | ticks
  -- Whatever called Fork, Yield, P or V, with the level at the time, for the record only.
  | called (level : IntStatus)
  deriving DecidableEq, Repr

/-- Where the current thread is, while it executes. -/
inductive Control
  -- In its own code.
  | own
  -- At the return from a call.
  | returns
  -- At the start of OneTick, called by SetLevel.
  | ticks
  deriving DecidableEq, Repr

/-- What an interrupt handler calls. Schedule is left out: it does not look at the level. -/
inductive HandlerCall
  | v (semaphore : Nat)
  | yieldOnReturn
  deriving DecidableEq, Repr

/-- The threads, the interrupt level, and the calls that each thread is in. -/
structure LevelSystem where
  threads : ThreadSystem
  level : IntStatus
  inHandler : Bool
  yieldOnReturn : Bool
  -- The calls of each thread that have not returned, the last one first.
  calls : ThreadNumber → List Activation
  control : Control
  -- An assertion on the interrupt level has failed.
  failed : Bool

namespace LevelSystem

/-- The main thread executes its own code, at some level. -/
def start (initialValue : Nat → Int) (level : IntStatus) : LevelSystem where
  threads := .start initialValue
  level
  inHandler := false
  yieldOnReturn := false
  calls := fun _ => []
  control := .own
  failed := false

/-- `ASSERT(kernel->interrupt->getLevel() == IntOff)`. -/
def assertOff (sys : LevelSystem) : LevelSystem :=
  if sys.level = .intOff then sys else { sys with failed := true }

/-- Replace the calls that the current thread is in. -/
def setCalls (sys : LevelSystem) (calls : List Activation) : LevelSystem :=
  { sys with calls := Function.update sys.calls sys.threads.currentThread calls }

/-- The calls that the current thread is in. -/
def currentCalls (sys : LevelSystem) : List Activation := sys.calls sys.threads.currentThread

/-- `SetLevel`, up to the call of `OneTick` if there is one. -/
def setLevel (sys : LevelSystem) (now : IntStatus) : LevelSystem :=
  -- Interrupt handlers are prohibited from enabling interrupts.
  if now = .intOn ∧ sys.inHandler = true then { sys with failed := true }
  else { sys with
    level := now
    control := if now = .intOn ∧ sys.level = .intOff then .ticks else .returns }

/-- The start of `Fork`, `Yield`, `P` and `V`: save the level, and turn interrupts off. -/
def enter (sys : LevelSystem) : LevelSystem :=
  { sys.setCalls (.restores sys.level :: .called sys.level :: sys.currentCalls) with
    level := .intOff }

/-- `V` between the two calls of `SetLevel`. -/
def wake (sys : LevelSystem) (semaphore : Nat) : LevelSystem :=
  match (sys.threads.semaphores semaphore).queue with
  | [] => { sys with threads := sys.threads.v semaphore }
  -- The assertion of ReadyToRun.
  | _ :: _ => { sys.assertOff with threads := sys.threads.v semaphore }

/-- `V`, called by an interrupt handler. -/
def handlerV (sys : LevelSystem) (semaphore : Nat) : LevelSystem :=
  let oldLevel := sys.level
  { ({ sys with level := .intOff }.wake semaphore).setLevel oldLevel with control := sys.control }

/-- One call of an interrupt handler. -/
def handle (sys : LevelSystem) : HandlerCall → LevelSystem
  | .v semaphore => sys.handlerV semaphore
  | .yieldOnReturn => { sys with yieldOnReturn := true }

/-- `CheckIfDue`, with the calls of the handlers of all interrupts that are due. -/
def checkIfDue (sys : LevelSystem) (due : List HandlerCall) : LevelSystem :=
  { due.foldl handle { sys.assertOff with inHandler := true } with inHandler := false }

/-- `Yield`, up to `SWITCH` or to the return. -/
def yield (sys : LevelSystem) : LevelSystem :=
  -- The assertion of FindNextToRun.
  let sys := sys.enter.assertOff
  match sys.threads.readyList with
  | [] => { sys with control := .returns }
  -- The assertions of ReadyToRun and Run.
  | _ :: _ => { sys.assertOff.assertOff with threads := sys.threads.yield }

/-- `OneTick`, up to its `Yield` or to the return. -/
def oneTick (sys : LevelSystem) (due : List HandlerCall) : LevelSystem :=
  let sys := { { sys with level := .intOff }.checkIfDue due with level := .intOn }
  if sys.yieldOnReturn then
    ({ sys with yieldOnReturn := false }.setCalls (.ticks :: sys.currentCalls)).yield
  else { sys with control := .returns }

/-- `Fork`, up to the call of `Yield` and in it. -/
def fork (sys : LevelSystem) (thread : ThreadNumber) : LevelSystem :=
  -- The assertion of ReadyToRun.
  let sys := sys.enter.assertOff
  { sys with threads := sys.threads.started thread }.yield

/-- A test of the loop in `P` has come out like this: return, or be in `Sleep`. -/
def tested (sys : LevelSystem) (threads : ThreadSystem) : LevelSystem :=
  match threads.phase with
  -- The assertion of Sleep.
  | .sleeping _ => { sys.assertOff with threads }
  | _ => { sys with threads, control := .returns }

/-- `P`, up to `Sleep` or to the return. -/
def p (sys : LevelSystem) (semaphore : Nat) : LevelSystem :=
  sys.enter.tested (sys.threads.p semaphore)

/-- `V`, called by the current thread. -/
def v (sys : LevelSystem) (semaphore : Nat) : LevelSystem :=
  { sys.enter.wake semaphore with control := .returns }

/-- `Finish`, up to the loop of `Sleep`. -/
def finish (sys : LevelSystem) : LevelSystem :=
  -- The assertion of Sleep.
  { { sys with level := .intOff }.assertOff with threads := sys.threads.finish }

/-- One turn of the loop of `Sleep`: dispatch a thread, or idle until interrupts occur. -/
def sleepLoop (sys : LevelSystem) (due : List HandlerCall) : Option LevelSystem :=
  -- The assertion of FindNextToRun.
  let sys := sys.assertOff
  match sys.threads.readyList with
  | [] => some (sys.checkIfDue due)
  -- The assertion of Run.
  | _ :: _ => (sys.threads.step .dispatch).map fun threads => { sys.assertOff with threads }

/-- The current thread goes on after `SWITCH`, in `Begin` or in `Run`. -/
def goOn (sys : LevelSystem) : LevelSystem :=
  let threads := sys.threads.resume
  match sys.threads.continuation sys.threads.currentThread with
  | .begins => { sys with threads }.setLevel .intOn
  -- The assertion of Run after SWITCH.
  | .yields => { sys.assertOff with threads, control := .returns }
  | .tests _ => sys.assertOff.tested threads

/-- A call returns to the one that made it. -/
def leave (sys : LevelSystem) : LevelSystem :=
  match sys.currentCalls with
  | [] => { sys with control := .own }
  | .restores oldLevel :: rest => (sys.setCalls rest).setLevel oldLevel
  | .ticks :: rest => sys.setCalls rest
  | .called _ :: rest => sys.setCalls rest

end LevelSystem

/-- What can happen next. Locks and conditions do nothing to the level but call `P` and `V`. -/
inductive LevelEvent
  -- The current thread calls these in its own code.
  | setLevel (now : IntStatus)
  | createThread
  | setPriority (thread : ThreadNumber) (priority : Int)
  | fork (thread : ThreadNumber)
  | yield
  | p (semaphore : Nat)
  | v (semaphore : Nat)
  | finish
  -- The current thread has executed a user instruction, after which the machine calls OneTick.
  | instruction (due : List HandlerCall)
  -- The kernel goes on with the call that it is in.
  | kernel (due : List HandlerCall)

/-- One step, refused when it does not come next, or an assertion on the level has failed. -/
def LevelSystem.step (sys : LevelSystem) (event : LevelEvent) : Option LevelSystem :=
  if sys.failed then none
  else
    match sys.threads.phase, sys.control, event with
    | .sleeping _, _, .kernel due => sys.sleepLoop due
    | .resuming, _, .kernel _ => some sys.goOn
    | .executing, .returns, .kernel _ => some sys.leave
    | .executing, .ticks, .kernel due => some (sys.oneTick due)
    | .executing, .own, .setLevel now => some (sys.setLevel now)
    | .executing, .own, .createThread => some { sys with threads := sys.threads.createThread }
    | .executing, .own, .setPriority thread priority => do
      return { sys with threads := ← sys.threads.step (.setPriority thread priority) }
    | .executing, .own, .fork thread =>
      if thread < sys.threads.created ∧ sys.threads.forked thread = false then
        some (sys.fork thread)
      else none
    | .executing, .own, .yield => some sys.yield
    | .executing, .own, .p semaphore => some (sys.p semaphore)
    | .executing, .own, .v semaphore => some (sys.v semaphore)
    | .executing, .own, .finish => some sys.finish
    | .executing, .own, .instruction due => some (sys.oneTick due)
    | _, _, _ => none

end Nachos
