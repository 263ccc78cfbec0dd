import Nachos.Machine.Mipssim
import Nachos.Threads.Scheduler

/-! What context switches do for user programs: the registers and the page table of the machine. -/

namespace Nachos

/-- What a context switch needs of an address space: whose page table it has, and how long it is. -/
structure SpaceHandle where
  threadId : Int
  numPages : Nat

/-- `AddrSpace::RestoreState`: tell the machine where to find the page table. -/
def SpaceHandle.restoreState (space : SpaceHandle) (machine : Machine) : Machine :=
  { machine with
    kernel := { machine.kernel with
      pageTable := some space.threadId
      pageTableSize := space.numPages } }

/-- The threads, and the one machine that their user programs share. -/
structure UserSystem where
  threads : ThreadSystem
  machine : Machine
  -- The pid that the thread manager has given each thread.
  pid : ThreadNumber → Int
  space : ThreadNumber → Option SpaceHandle
  userRegisters : ThreadNumber → Nat → Word
  -- The registers of the machine when the thread was last switched out, for the record only.
  leftWith : ThreadNumber → Nat → Word

namespace UserSystem

/-- No thread has an address space yet. -/
def start (initialValue : Nat → Int) (machine : Machine) (pid : ThreadNumber → Int)
    (uninitialised : ThreadNumber → Nat → Word) : UserSystem where
  threads := .start initialValue
  machine
  pid
  space := fun _ => none
  userRegisters := uninitialised
  leftWith := uninitialised

/-- `SaveUserState`: copy the registers of the machine. -/
def saveUserState (sys : UserSystem) (thread : ThreadNumber) : UserSystem :=
  { sys with
    userRegisters := Function.update sys.userRegisters thread fun i =>
      if i < numTotalRegs then sys.machine.registers i else sys.userRegisters thread i }

/-- `RestoreUserState`: copy the registers back. -/
def restoreUserState (sys : UserSystem) (thread : ThreadNumber) : UserSystem :=
  { sys with
    machine := { sys.machine with
      registers := fun i =>
        if i < numTotalRegs then sys.userRegisters thread i else sys.machine.registers i } }

/-- `Run` up to `SWITCH`, as far as it concerns user programs. -/
def leave (sys : UserSystem) (nextThread : ThreadNumber) : UserSystem :=
  let oldThread := sys.threads.currentThread
  let noted := { sys with
    leftWith := Function.update sys.leftWith oldThread sys.machine.registers }
  -- SaveState of the address space has nothing to save.
  let saved := if (sys.space oldThread).isSome then noted.saveUserState oldThread else noted
  { saved with
    machine := { saved.machine with
      kernel := { saved.machine.kernel with currentThread := sys.pid nextThread } } }

/-- `Run` after `SWITCH`, in the thread that was switched out there. -/
def comeBack (sys : UserSystem) (oldThread : ThreadNumber) : UserSystem :=
  match sys.space oldThread with
  | some space =>
    let restored := sys.restoreUserState oldThread
    { restored with machine := space.restoreState restored.machine }
  | none => sys

/-- A thread goes on after `SWITCH`: in `Run`, or in `Begin` if it is new. -/
def goOn (sys : UserSystem) : UserSystem :=
  match sys.threads.continuation sys.threads.currentThread with
  | .begins => sys
  | .yields | .tests _ => sys.comeBack sys.threads.currentThread

/-- `AddrSpace::Execute`, up to the call of `Machine::Run`. -/
def execute (sys : UserSystem) (space : SpaceHandle) : UserSystem :=
  { sys with
    space := Function.update sys.space sys.threads.currentThread (some space)
    machine := space.restoreState (sys.machine.initRegisters space.numPages) }

end UserSystem

/-- What can happen next. -/
inductive UserEvent
  | thread (event : ThreadEvent)
  -- The current thread executes an instruction of its program.
  | instruction (now : Int)
  -- CheckIfDue finishes a pending load, in whatever thread is current.
  | flush
  -- The current thread calls Execute of an address space.
  | execute (space : SpaceHandle)

/-- One step of the threads and the machine. -/
def UserSystem.step (sys : UserSystem) : UserEvent → Option UserSystem
  | .thread event => do
    let threads ← sys.threads.step event
    if sys.threads.phase = .resuming then
      -- SWITCH has brought the thread back, which goes on.
      return { sys.goOn with threads }
    else if threads.phase = .resuming then
      -- The step has called Run.
      return { sys.leave threads.currentThread with threads }
    else return { sys with threads }
  | .instruction now =>
    if sys.threads.phase = .executing then do
      return { sys with machine := ← sys.machine.step (.instruction now) }
    else none
  | .flush =>
    -- Interrupts are off while a thread is switched to.
    if sys.threads.phase = .resuming then none
    else do
      return { sys with machine := ← sys.machine.step .interrupt }
  | .execute space =>
    if sys.threads.phase = .executing then some (sys.execute space) else none

end Nachos
