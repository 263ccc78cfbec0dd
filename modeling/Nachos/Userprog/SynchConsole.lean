import Nachos.Machine.Console
import Nachos.Threads.Lock

/-! The synchronous keyboard: one reader at a time, and a wake-up for each character. -/

namespace Nachos

section

variable {Thread : Type} [DecidableEq Thread]

/-- Where a thread stands in its call of `GetChar`. -/
inductive SynchConsoleStage
  | idle
  -- In Acquire, or back from it and about to test the value in P.
  | entering
  -- Asleep in P.
  | parked
  -- P has returned, and the keyboard is asked next.
  | woken
  -- In front of Release, or inside it, with the character to return.
  | leaving (ch : Byte)

/-- The synchronous keyboard, its device, and how far each thread is in its call. -/
structure SynchConsoleSystem (Thread : Type) where
  lock : LockSystem Thread
  consoleInput : ConsoleInput
  waitFor : Semaphore Thread
  stage : Thread → SynchConsoleStage
  -- What the calls got from the keyboard, and what they returned, in order, for the record only.
  taken : List Byte
  returned : List Byte
  -- The assertion that nothing is buffered has failed.
  aborted : Bool

namespace SynchConsoleSystem

/-- The constructor. -/
def new (readFile : List Byte) : SynchConsoleSystem Thread :=
  { lock := .new, consoleInput := .new readFile, waitFor := .new 0, stage := fun _ => .idle
    taken := [], returned := [], aborted := false }

/-- The thread moves on to another stage. -/
def move (sys : SynchConsoleSystem Thread) (thread : Thread) (stage : SynchConsoleStage) :
    SynchConsoleSystem Thread :=
  { sys with stage := Function.update sys.stage thread stage }

/-- `CallBack`: wake up anyone waiting, who tests the value again. -/
def callBack (sys : SynchConsoleSystem Thread) : SynchConsoleSystem Thread :=
  match sys.waitFor.v with
  | (waitFor, none) => { sys with waitFor }
  | (waitFor, some woken) => { sys with waitFor }.move woken .entering

/-- The interrupt: the callback of the keyboard, which may call back in turn. -/
def interrupt (sys : SynchConsoleSystem Thread) (pollFile : Bool) : SynchConsoleSystem Thread :=
  match sys.consoleInput.interrupt pollFile with
  | some (consoleInput, false) => { sys with consoleInput }
  | some (consoleInput, true) => { sys with consoleInput }.callBack
  | none => { sys with aborted := true }

/-- The thread gets its character from the keyboard. -/
def getChar (sys : SynchConsoleSystem Thread) (thread : Thread) : SynchConsoleSystem Thread :=
  { sys with
    consoleInput := sys.consoleInput.getChar.2
    taken := sys.taken ++ [sys.consoleInput.getChar.1] }.move thread
      (.leaving sys.consoleInput.getChar.1)

/-- The return from `Release` is the return from the call. -/
def afterLock (sys : SynchConsoleSystem Thread) (piece : LockEvent Thread) :
    SynchConsoleSystem Thread :=
  match piece, sys.stage piece.thread with
  | .v thread, .leaving ch => { sys with returned := sys.returned ++ [ch] }.move thread .idle
  | _, _ => sys

end SynchConsoleSystem

/-- The pieces of the calls, and the interrupt, in any order. -/
inductive SynchConsoleEvent (Thread : Type)
  -- GetChar is called.
  | call (thread : Thread)
  -- A piece of Acquire or Release.
  | lock (piece : LockEvent Thread)
  -- P tests the value, the first time or after a wake-up.
  | p (thread : Thread)
  -- The keyboard is asked for the character.
  | getChar (thread : Thread)
  -- The read interrupt, and whether the host has something to read then.
  | interrupt (pollFile : Bool)

/-- The calls of the lock that a thread makes where it stands; the others go on inside one. -/
def SynchConsoleStage.allows : LockEvent Thread → SynchConsoleStage → Bool
  | .acquire _, .entering => true
  | .release _, .leaving _ => true
  | .acquire _, _ | .release _, _ => false
  | .p _, _ | .hold _, _ | .v _, _ => true

namespace SynchConsoleSystem

/-- One step of one thread or of the keyboard, refused when it is not there. -/
def step (sys : SynchConsoleSystem Thread) :
    SynchConsoleEvent Thread → Option (SynchConsoleSystem Thread)
  | .call thread =>
    match sys.stage thread with
    | .idle => some (sys.move thread .entering)
    | _ => none
  | .lock piece =>
    if (sys.stage piece.thread).allows piece then
      (sys.lock.step piece).map fun lock => { sys with lock }.afterLock piece
    else none
  | .p thread =>
    match sys.stage thread with
    | .entering =>
      if sys.lock.stage thread = .holding then
        match sys.waitFor.test thread with
        | (waitFor, true) => some ({ sys with waitFor }.move thread .woken)
        | (waitFor, false) => some ({ sys with waitFor }.move thread .parked)
      else none
    | _ => none
  | .getChar thread =>
    match sys.stage thread with
    | .woken => some (sys.getChar thread)
    | _ => none
  | .interrupt pollFile =>
    if sys.consoleInput.pending = 0 then none else some (sys.interrupt pollFile)

section

variable (sys : SynchConsoleSystem Thread) (thread other : Thread) (stage : SynchConsoleStage)

@[simp] theorem move_stage_self : (sys.move thread stage).stage thread = stage := by
  simp [move]

@[simp] theorem move_stage_of_ne (different : other ≠ thread) :
    (sys.move thread stage).stage other = sys.stage other := by
  simp [move, different]

end

end SynchConsoleSystem

end

end Nachos
