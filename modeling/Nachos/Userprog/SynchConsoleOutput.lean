import Nachos.Machine.Console
import Nachos.Threads.Lock

/-! The synchronous display: one writer at a time, who waits until the display is done. -/

namespace Nachos

section

variable {Thread : Type} [DecidableEq Thread]

/-- Where a thread stands in its call of `PutChar`. -/
inductive SynchOutputStage
  | idle
  -- In Acquire, or back from it, and the display is asked next.
  | entering (ch : Byte)
  -- The display has the character, and P is about to test the value.
  | waiting
  -- Asleep in P.
  | parked
  -- In front of Release, or inside it.
  | leaving

/-- The synchronous display, its device, and how far each thread is in its call. -/
structure SynchOutputSystem (Thread : Type) where
  lock : LockSystem Thread
  consoleOutput : ConsoleOutput
  waitFor : Semaphore Thread
  stage : Thread → SynchOutputStage
  -- The assertion that the display is not busy has failed.
  aborted : Bool

/-- The pieces of the calls, and the interrupt, in any order. -/
inductive SynchOutputEvent (Thread : Type)
  -- PutChar is called.
  | call (thread : Thread) (ch : Byte)
  -- A piece of Acquire or Release.
  | lock (piece : LockEvent Thread)
  -- The display is given the character.
  | putChar (thread : Thread)
  -- P tests the value, the first time or after a wake-up.
  | p (thread : Thread)
  -- The write interrupt.
  | interrupt

/-- The calls of the lock that a thread makes where it stands; the others go on inside one. -/
def SynchOutputStage.allows : LockEvent Thread → SynchOutputStage → Bool
  | .acquire _, .entering _ => true
  | .release _, .leaving => true
  | .acquire _, _ | .release _, _ => false
  | .p _, _ | .hold _, _ | .v _, _ => true

/-- The return from `Release` is the return from the call. -/
def SynchOutputStage.after : LockEvent Thread → SynchOutputStage → SynchOutputStage
  | .v _, .leaving => .idle
  | _, stage => stage

namespace SynchOutputSystem

/-- The constructor. -/
def new : SynchOutputSystem Thread :=
  { lock := .new, consoleOutput := .new, waitFor := .new 0, stage := fun _ => .idle
    aborted := false }

/-- The thread moves on to another stage. -/
def move (sys : SynchOutputSystem Thread) (thread : Thread) (stage : SynchOutputStage) :
    SynchOutputSystem Thread :=
  { sys with stage := Function.update sys.stage thread stage }

/-- The thread gives its character to the display, which must not be busy. -/
def putChar (sys : SynchOutputSystem Thread) (thread : Thread) (ch : Byte) :
    SynchOutputSystem Thread :=
  match sys.consoleOutput.putChar ch with
  | some consoleOutput => { sys with consoleOutput }.move thread .waiting
  | none => { sys with aborted := true }

/-- `CallBack`: wake up the writer, who tests the value again. -/
def callBack (sys : SynchOutputSystem Thread) : SynchOutputSystem Thread :=
  match sys.waitFor.v with
  | (waitFor, none) => { sys with waitFor }
  | (waitFor, some woken) => { sys with waitFor }.move woken .waiting

/-- The interrupt: the callback of the display, which calls back in turn. -/
def interrupt (sys : SynchOutputSystem Thread) : SynchOutputSystem Thread :=
  { sys with consoleOutput := sys.consoleOutput.interrupt }.callBack

/-- One step of one thread or of the display, refused when it is not there. -/
def step (sys : SynchOutputSystem Thread) :
    SynchOutputEvent Thread → Option (SynchOutputSystem Thread)
  | .call thread ch =>
    match sys.stage thread with
    | .idle => some (sys.move thread (.entering ch))
    | _ => none
  | .lock piece =>
    if (sys.stage piece.thread).allows piece then
      (sys.lock.step piece).map fun lock =>
        { sys with lock }.move piece.thread ((sys.stage piece.thread).after piece)
    else none
  | .putChar thread =>
    match sys.stage thread with
    | .entering ch =>
      if sys.lock.stage thread = .holding then some (sys.putChar thread ch) else none
    | _ => none
  | .p thread =>
    match sys.stage thread with
    | .waiting =>
      match sys.waitFor.test thread with
      | (waitFor, true) => some ({ sys with waitFor }.move thread .leaving)
      | (waitFor, false) => some ({ sys with waitFor }.move thread .parked)
    | _ => none
  | .interrupt => if sys.consoleOutput.pending = 0 then none else some sys.interrupt

section

variable (sys : SynchOutputSystem Thread) (thread other : Thread) (stage : SynchOutputStage)

@[simp] theorem move_lock : (sys.move thread stage).lock = sys.lock := rfl

@[simp] theorem move_consoleOutput :
    (sys.move thread stage).consoleOutput = sys.consoleOutput := rfl

@[simp] theorem move_waitFor : (sys.move thread stage).waitFor = sys.waitFor := rfl

@[simp] theorem move_stage_self : (sys.move thread stage).stage thread = stage := by
  simp [move]

@[simp] theorem move_stage_of_ne (different : other ≠ thread) :
    (sys.move thread stage).stage other = sys.stage other := by
  simp [move, different]

end

end SynchOutputSystem

end

end Nachos
