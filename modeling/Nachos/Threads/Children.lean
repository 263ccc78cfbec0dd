import Nachos.Lib.Bitmap
import Nachos.Threads.Scheduler

/-! The thread manager, and the threads that it makes as parents and children. -/

namespace Nachos

/-- The thread manager, and what it has put into the control blocks of its threads. -/
structure ThreadManager where
  threadCnt : Nat
  threadList : List ThreadNumber
  threadMap : Bitmap
  -- How many control blocks have been allocated; no two of them have one number.
  created : Nat
  -- Which of them are deallocated.
  destroyed : ThreadNumber → Bool
  pid : ThreadNumber → Int
  parent : ThreadNumber → Option ThreadNumber
  activeChild : ThreadNumber → List ThreadNumber
  exitedChild : ThreadNumber → List ThreadNumber

namespace ThreadManager

/-- The constructor: there are no threads, and all pids are free. -/
def new : ThreadManager where
  threadCnt := 0
  threadList := []
  threadMap := .new threadCountMax
  created := 0
  destroyed := fun _ => false
  pid := fun _ => 0
  parent := fun _ => none
  activeChild := fun _ => []
  exitedChild := fun _ => []

/-- The control block is allocated, so that a pointer to it can be followed. -/
abbrev Live (manager : ThreadManager) (thread : ThreadNumber) : Prop :=
  thread < manager.created ∧ manager.destroyed thread = false

/-- `Thread::addChild`, of a thread whose control block there is. -/
def addChild (manager : ThreadManager) (thread child : ThreadNumber) : Option ThreadManager :=
  if manager.Live thread then do
    let children ← appendItem child (manager.activeChild thread)
    return { manager with activeChild := Function.update manager.activeChild thread children }
  else none

/-- `Thread::childThreadExit`, of a thread whose control block there is. -/
def childThreadExit (manager : ThreadManager) (thread child : ThreadNumber) :
    Option ThreadManager :=
  if manager.Live thread then do
    let active ← removeItem child (manager.activeChild thread)
    let exited ← appendItem child (manager.exitedChild thread)
    return { manager with
      activeChild := Function.update manager.activeChild thread active
      exitedChild := Function.update manager.exitedChild thread exited }
  else none

/-- The constructor of a thread, whose parent is the current thread. -/
def newThread (manager : ThreadManager) (currentThread : Option ThreadNumber) (pid : Int) :
    ThreadManager :=
  { manager with
    created := manager.created + 1
    pid := Function.update manager.pid manager.created pid
    parent := Function.update manager.parent manager.created currentThread
    activeChild := Function.update manager.activeChild manager.created []
    exitedChild := Function.update manager.exitedChild manager.created [] }

/-- `createThread`: the new thread, or the null pointer when there are too many. -/
def createThread (manager : ThreadManager) (currentThread : Option ThreadNumber) :
    Option (Option ThreadNumber × ThreadManager) :=
  if manager.threadCnt + 1 < threadCountMax then do
    -- generateThreadID takes the first free pid.
    let (pid, threadMap) ← manager.threadMap.findAndSet
    let made := { manager with threadCnt := manager.threadCnt + 1, threadMap }.newThread
      currentThread pid
    let known ← if made.threadCnt > 1 then
        currentThread.bind fun thread => made.addChild thread manager.created
      else some made
    let threadList ← appendItem manager.created known.threadList
    return (some manager.created, { known with threadList })
  else return (none, manager)

/-- `deleteThread`, of a thread whose control block there is. -/
def deleteThread (manager : ThreadManager) (currentThread thread : ThreadNumber) :
    Option ThreadManager :=
  if manager.Live thread then do
    let threadMap ← manager.threadMap.clear (manager.pid thread)
    let threadList ← removeItem thread manager.threadList
    -- The destructor asserts that the thread is not the current one.
    if thread = currentThread then none
    else return { manager with
      threadCnt := manager.threadCnt - 1
      threadMap
      threadList
      destroyed := Function.update manager.destroyed thread true }
  else none

/-- `threadIDComp`. -/
def threadIDComp (manager : ThreadManager) (pid : Int) (thread : ThreadNumber) : Bool :=
  manager.pid thread == pid

/-- `getThreadPtr`: the thread with this pid, or the null pointer. -/
def getThreadPtr (manager : ThreadManager) (pid : Int) : Option (Option ThreadNumber) := do
  if ← manager.threadMap.test pid then
    return findByComp (manager.threadIDComp pid) manager.threadList
  else return none

/-- `Thread::removeExitedChild`, of a thread whose control block there is. -/
def removeExitedChild (manager : ThreadManager) (thread : ThreadNumber) (threadId : Int) :
    Option (ThreadNumber × ThreadManager) :=
  if manager.Live thread then do
    -- Remove asserts that the pointer is in the list, where the null pointer never is.
    let child ← ← manager.getThreadPtr threadId
    let children ← removeItem child (manager.exitedChild thread)
    return (child,
      { manager with exitedChild := Function.update manager.exitedChild thread children })
  else none

/-- What `Finish` does before it sleeps: tell the parent, if there is one. -/
def finish (manager : ThreadManager) (thread : ThreadNumber) : Option ThreadManager :=
  match manager.parent thread with
  | none => some manager
  | some parent => manager.childThreadExit parent thread

/-- The thread manager once it has made the main thread, of which nobody is the parent. -/
def start : ThreadManager :=
  { new with
    threadCnt := 1
    threadList := [0]
    threadMap := (Bitmap.new threadCountMax).setBit 0 }.newThread none 0

/-- That is what the first call of `createThread` leaves. -/
theorem createThread_main : new.createThread none = some (some 0, start) := by
  rfl

end ThreadManager

/-- The thread manager, and which thread calls it. -/
structure ManagedThreads where
  manager : ThreadManager
  currentThread : ThreadNumber

/-- A call of the thread manager, or a switch to another thread. -/
inductive ManagerEvent
  | createThread
  | deleteThread (thread : ThreadNumber)
  | switchTo (thread : ThreadNumber)

/-- `Kernel::Initialize`: the main thread is the current one. -/
def ManagedThreads.start : ManagedThreads := ⟨.start, 0⟩

/-- One call of the thread manager, or a switch to another thread. -/
def ManagedThreads.step (sys : ManagedThreads) : ManagerEvent → Option ManagedThreads
  | .createThread => do
    let (_, manager) ← sys.manager.createThread (some sys.currentThread)
    return { sys with manager }
  | .deleteThread thread => do
    return { sys with manager := ← sys.manager.deleteThread sys.currentThread thread }
  | .switchTo thread => some { sys with currentThread := thread }

/-- The threads that run, and the thread manager. -/
structure ThreadFamily where
  threads : ThreadSystem
  manager : ThreadManager

/-- A step of the threads, or the collection of a child by the current thread. -/
inductive FamilyEvent
  | thread (event : ThreadEvent)
  | removeExitedChild (threadId : Int)

namespace ThreadFamily

/-- `Kernel::Initialize`. -/
def start (initialValue : Nat → Int) : ThreadFamily := ⟨.start initialValue, .start⟩

/-- What the thread manager does in an event of the threads. -/
def manage (sys : ThreadFamily) : ThreadEvent → Option ThreadManager
  | .createThread => (sys.manager.createThread (some sys.threads.currentThread)).map Prod.snd
  | .finish => sys.manager.finish sys.threads.currentThread
  | .resume =>
    -- CheckToBeDestroyed comes first after SWITCH.
    match sys.threads.toBeDestroyed with
    | some thread => sys.manager.deleteThread sys.threads.currentThread thread
    | none => some sys.manager
  | _ => some sys.manager

/-- One step, refused when an assertion fails or a control block is used that is gone. -/
def step (sys : ThreadFamily) : FamilyEvent → Option ThreadFamily
  | .thread event => do
    let threads ← sys.threads.step event
    return ⟨threads, ← sys.manage event⟩
  | .removeExitedChild threadId =>
    if sys.threads.phase = .executing ∧ sys.threads.aborted = false then do
      let (_, manager) ← sys.manager.removeExitedChild sys.threads.currentThread threadId
      return { sys with manager }
    else none

end ThreadFamily

end Nachos
