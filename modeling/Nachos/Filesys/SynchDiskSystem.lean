import Nachos.Filesys.SynchDisk
import Nachos.Threads.Lock

/-! The synchronous disk among threads: one request at a time, and an interrupt for each. -/

namespace Nachos

section

variable {Thread : Type} [DecidableEq Thread]

/-- Where a thread stands in its call of `ReadSector` or `WriteSector`. -/
inductive SynchDiskStage
  | idle
  -- In Acquire, or back from it.
  | entering (request : DiskRequest)
  -- The disk has the request of this number, and P is about to test the value.
  | waiting (number : Nat) (data : Option Sector)
  -- The disk has the request of this number, and the thread is asleep in P.
  | parked (number : Nat) (data : Option Sector)
  -- In front of Release, or inside it, with the request that was issued and the data to return.
  | leaving (number : Option Nat) (data : Option Sector)

/-- The synchronous disk, its device, and how far each thread is in its call. -/
structure SynchDiskSystem (Thread : Type) where
  lock : LockSystem Thread
  synch : SynchDisk
  semaphore : Semaphore Thread
  -- The device has a request that is not complete.
  active : Bool
  -- The requests whose interrupts are scheduled, by number.
  pending : List Nat
  -- How many requests the device has had.
  issued : Nat
  -- The requests whose interrupts have come, in order, for the record only.
  completed : List Nat
  stage : Thread → SynchDiskStage
  -- The assertion that the device is not active has failed.
  aborted : Bool

/-- The constructor. -/
def SynchDiskSystem.new (synch : SynchDisk) : SynchDiskSystem Thread :=
  { lock := .new, synch, semaphore := .new 0, active := false, pending := [], issued := 0
    completed := [], stage := fun _ => .idle, aborted := false }

/-- The thread moves on to another stage. -/
def SynchDiskSystem.move (sys : SynchDiskSystem Thread) (thread : Thread)
    (stage : SynchDiskStage) : SynchDiskSystem Thread :=
  { sys with stage := Function.update sys.stage thread stage }

/-- The device takes a request, and schedules its interrupt. -/
def SynchDiskSystem.issue (sys : SynchDiskSystem Thread) (thread : Thread) (synch : SynchDisk)
    (data : Option Sector) : SynchDiskSystem Thread :=
  if sys.active then { sys with aborted := true }
  else
    { sys with
      synch
      active := true
      pending := sys.pending ++ [sys.issued]
      issued := sys.issued + 1 }.move thread (.waiting sys.issued data)

/-- What a call does with the lock, up to `P` or to `Release`: a hit leaves the device alone. -/
def SynchDiskSystem.request (sys : SynchDiskSystem Thread) (thread : Thread) (totalTicks : Int) :
    DiskRequest → Option (SynchDiskSystem Thread)
  | .read sectorNumber => do
    let (data, synch) ← sys.synch.readSector totalTicks sectorNumber
    match sys.synch.lookup sectorNumber with
    | some _ => return { sys with synch }.move thread (.leaving none (some data))
    | none => return sys.issue thread synch (some data)
  | .write sectorNumber data => do
    let synch ← sys.synch.writeSector sectorNumber data
    return sys.issue thread synch none

/-- The disk interrupt: `Disk::CallBack`, which calls `SynchDisk::CallBack`. -/
def SynchDiskSystem.callBack (sys : SynchDiskSystem Thread) (number : Nat) (rest : List Nat) :
    SynchDiskSystem Thread :=
  let done := { sys with
    active := false, pending := rest, completed := sys.completed ++ [number] }
  match sys.semaphore.v with
  | (semaphore, none) => { done with semaphore }
  | (semaphore, some woken) =>
    match sys.stage woken with
    | .parked number data => { done with semaphore }.move woken (.waiting number data)
    | _ => { done with semaphore }

/-- The pieces of the calls, and the interrupt, in any order. -/
inductive SynchDiskEvent (Thread : Type)
  -- ReadSector or WriteSector is called.
  | call (thread : Thread) (request : DiskRequest)
  -- A piece of Acquire or Release.
  | lock (piece : LockEvent Thread)
  -- The thread has the lock, and goes on to P or to Release; the clock shows the ticks.
  | request (thread : Thread) (totalTicks : Int)
  -- P tests the value.
  | p (thread : Thread)
  | interrupt

/-- The calls of the lock that a thread makes where it stands; the others go on inside one. -/
def SynchDiskStage.allows : LockEvent Thread → SynchDiskStage → Bool
  | .acquire _, .entering _ => true
  | .release _, .leaving _ _ => true
  | .acquire _, _ | .release _, _ => false
  | .p _, _ | .hold _, _ | .v _, _ => true

/-- The return from `Release` is the return from the call. -/
def SynchDiskStage.after : LockEvent Thread → SynchDiskStage → SynchDiskStage
  | .v _, .leaving _ _ => .idle
  | _, stage => stage

/-- One step of one thread or of the device, refused when it is not there. -/
def SynchDiskSystem.step (sys : SynchDiskSystem Thread) :
    SynchDiskEvent Thread → Option (SynchDiskSystem Thread)
  | .call thread request =>
    match sys.stage thread with
    | .idle => some (sys.move thread (.entering request))
    | _ => none
  | .lock piece =>
    if (sys.stage piece.thread).allows piece then
      (sys.lock.step piece).map fun lock =>
        { sys with lock }.move piece.thread ((sys.stage piece.thread).after piece)
    else none
  | .request thread totalTicks =>
    match sys.stage thread with
    | .entering request =>
      if sys.lock.stage thread = .holding then sys.request thread totalTicks request else none
    | _ => none
  | .p thread =>
    match sys.stage thread with
    | .waiting number data =>
      match sys.semaphore.test thread with
      | (semaphore, true) => some ({ sys with semaphore }.move thread (.leaving (some number) data))
      | (semaphore, false) => some ({ sys with semaphore }.move thread (.parked number data))
    | _ => none
  | .interrupt =>
    match sys.pending with
    | [] => none
    | number :: rest => some (sys.callBack number rest)

section

variable (sys : SynchDiskSystem Thread) (thread other : Thread) (stage : SynchDiskStage)

@[simp] theorem SynchDiskSystem.move_stage_self :
    (sys.move thread stage).stage thread = stage := by
  simp [move]

@[simp] theorem SynchDiskSystem.move_stage_of_ne (different : other ≠ thread) :
    (sys.move thread stage).stage other = sys.stage other := by
  simp [move, different]

end

end

end Nachos
