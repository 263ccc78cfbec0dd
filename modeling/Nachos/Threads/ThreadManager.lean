import Nachos.Threads.UserState

/-! The thread manager gives pids to threads, by which the memory manager keeps address spaces. -/

namespace Nachos

/-- The threads with their user programs, and the pids that they have. -/
structure ProcessSystem where
  user : UserSystem
  -- The pids in use.
  threadMap : Bitmap
  -- Which threads are deleted, for the record only.
  deleted : ThreadNumber → Bool
  -- For which threads createAddrSpace has been called, for the record only.
  asked : ThreadNumber → Bool

namespace ProcessSystem

/-- `Kernel::Initialize`, on a machine that has just been switched on. -/
def start (initialValue : Nat → Int) (registers : Nat → Word) (files : UnixFiles)
    (mainMemory : MainMemory) (tlb : TLB) (owners : Nat → PhyMemPageEntry)
    (uninitialised : ThreadNumber → Nat → Word) : ProcessSystem where
  user := .start initialValue ⟨registers, .boot files mainMemory tlb owners 0⟩ (fun _ => 0)
    uninitialised
  -- The main thread has taken the first pid.
  threadMap := (Bitmap.new threadCountMax).setBit 0
  deleted := fun _ => false
  asked := fun _ => false

/-- The memory manager, with the memory that it manages. -/
def memory (sys : ProcessSystem) : VmKernel := sys.user.machine.kernel

/-- Replace what the memory manager has changed. -/
def withMemory (sys : ProcessSystem) (memory : VmKernel) : ProcessSystem :=
  { sys with user := { sys.user with machine := { sys.user.machine with kernel := memory } } }

/-- A thread that has been created and is not deleted. -/
abbrev Live (sys : ProcessSystem) (thread : ThreadNumber) : Prop :=
  thread < sys.user.threads.created ∧ sys.deleted thread = false

/-- `createThread`: `generateThreadID` takes the first pid that is free for the new thread. -/
def createThread (sys : ProcessSystem) : Option ProcessSystem :=
  if sys.user.threads.threadCnt + 1 < threadCountMax then do
    let (pid, threadMap) ← sys.threadMap.findAndSet
    return { sys with
      threadMap
      user := { sys.user with
        pid := Function.update sys.user.pid sys.user.threads.created pid } }
  else return sys

/-- `deleteThread`: the pid is free again. -/
def deleteThread (sys : ProcessSystem) (thread : ThreadNumber) : Option ProcessSystem := do
  let threadMap ← sys.threadMap.clear (sys.user.pid thread)
  -- The destructor of the thread calls deleteAddrSpace where VM is defined, which it is not.
  return { sys with threadMap, deleted := Function.update sys.deleted thread true }

/-- What the thread manager does with pids in an event of the threads. -/
def manage (sys : ProcessSystem) : UserEvent → Option ProcessSystem
  | .thread .createThread => sys.createThread
  | .thread .resume =>
    -- CheckToBeDestroyed comes first after SWITCH.
    match sys.user.threads.toBeDestroyed with
    | some thread => sys.deleteThread thread
    | none => some sys
  | _ => some sys

/-- `createAddrSpace` for a thread, and what it returns: nothing stands for the null pointer. -/
def createAddrSpace (sys : ProcessSystem) (thread : ThreadNumber) (filename : FileName)
    (stack : List Byte) (uninitialised : AddrSpace) : Option (Option AddrSpace × ProcessSystem) := do
  let pid := sys.user.pid thread
  let virtMemManager ← sys.memory.virtMemManager.createAddrSpace sys.memory.files pid filename stack
    uninitialised
  let answered := { sys.withMemory { sys.memory with virtMemManager } with
    asked := Function.update sys.asked thread true }
  -- Whatever is returned is in the table by now, which has the null pointer if that is returned.
  return (virtMemManager.virtMemTable pid, answered)

end ProcessSystem

/-- What can happen next. -/
inductive ProcessEvent
  | user (event : UserEvent)
  -- MemoryManager::createAddrSpace for the pid of a live thread, over leftovers of stack and heap.
  | createAddrSpace (thread : ThreadNumber) (filename : FileName) (stack : List Byte)
    (uninitialised : AddrSpace)
  -- MemoryManager::deleteAddrSpace, which the kernel offers and does not call itself.
  | deleteAddrSpace (threadId : Int)
  -- MemoryManager::pageFaultHandler, called by the current thread.
  | pageFault (now : Int) (vpn : Nat)

/-- One step of the threads, the machine and the memory manager. -/
def ProcessSystem.step (sys : ProcessSystem) : ProcessEvent → Option ProcessSystem
  | .user event => do
    let sys ← sys.manage event
    return { sys with user := ← sys.user.step event }
  | .createAddrSpace thread filename stack uninitialised =>
    if sys.user.threads.phase = .executing ∧ sys.Live thread then
      (sys.createAddrSpace thread filename stack uninitialised).map Prod.snd
    else none
  | .deleteAddrSpace threadId =>
    if sys.user.threads.phase = .executing then
      (sys.memory.step (0, .delete threadId)).map sys.withMemory
    else none
  | .pageFault now vpn =>
    if sys.user.threads.phase = .executing then
      (sys.memory.pageFaultHandler now vpn).map sys.withMemory
    else none

end Nachos
