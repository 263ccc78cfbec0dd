import Nachos.Vm.MemoryManager

/-! Access to virtual memory: the TLB first, then the page table, then the page fault handler. -/

namespace Nachos

/-- The exceptions that a translation can raise. -/
inductive ExceptionType
  | pageFaultException
  | readOnlyException
  | busErrorException
  | addressErrorException
  deriving DecidableEq

namespace VmKernel

/-- Must the address not be accessed with this size? -/
def misaligned (virtAddr : Word) (size : Nat) : Bool :=
  (size == 4 && virtAddr &&& 0x3 != 0) || (size == 2 && virtAddr &&& 0x1 != 0)

/-- The page table walk of `Translate`, which also installs the translation in the TLB. -/
def walk (kernel : VmKernel) (virtAddr : Word) (size : Nat) (writing : Bool) :
    Option (Except ExceptionType Int × VmKernel) :=
  let vpn := virtAddr.toNat / pageSize
  let offset := virtAddr.toNat % pageSize
  if vpn ≥ kernel.pageTableSize then some (.error .addressErrorException, kernel)
  else do
    let threadId ← kernel.pageTable
    let space ← kernel.virtMemManager.virtMemTable threadId
    let entry := space.pageTable vpn
    if !entry.valid then return (.error .pageFaultException, kernel)
    else if entry.readOnly && writing then return (.error .readOnlyException, kernel)
    -- The frame is compared as an unsigned int, so a negative one is too big as well.
    else if entry.physicalPage < 0 ∨ entry.physicalPage ≥ numPhysPages then
      return (.error .busErrorException, kernel)
    else
      let kernel := { kernel with
        tlb := kernel.tlb.update virtAddr.toNat entry.physicalPage kernel.currentThread }
      let kernel := if writing then kernel.setEntry threadId vpn { entry with dirty := true }
        else kernel
      let physAddr := entry.physicalPage * pageSize + offset
      if 0 ≤ physAddr ∧ physAddr + size ≤ physicalMemorySize then return (.ok physAddr, kernel)
      else none

/-- `Machine::Translate`: a page that the TLB maps is not looked up in the page table. -/
def translate (kernel : VmKernel) (virtAddr : Word) (size : Nat) (writing : Bool) :
    Option (Except ExceptionType Int × VmKernel) :=
  if misaligned virtAddr size then some (.error .addressErrorException, kernel)
  else
    let (physAddr, tlb) := kernel.tlb.translate virtAddr.toNat
    if physAddr ≥ 0 then some (.ok physAddr, { kernel with tlb })
    else { kernel with tlb }.walk virtAddr size writing

/--
The start of `ReadMem` and `WriteMem`: translate, and once more after a page fault.

Any other exception ends in the kernel's exception handler, which does not return.
-/
def locate (kernel : VmKernel) (now : Int) (addr : Word) (size : Nat) (writing : Bool) :
    Option (Nat × VmKernel) := do
  match ← kernel.translate addr size writing with
  | (.ok physAddr, kernel) => return (physAddr.toNat, kernel)
  | (.error .pageFaultException, kernel) =>
    let kernel ← kernel.pageFaultHandler now (addr.toNat / pageSize)
    match ← kernel.translate addr size writing with
    | (.ok physAddr, kernel) => return (physAddr.toNat, kernel)
    -- The second exception is not looked at, and the physical address was never set.
    | (.error _, _) => none
  | (.error _, _) => none

/-- The value that the bytes at an address have for `ReadMem`: a char is signed, a short is not. -/
def valueOf : List Byte → Option Int
  | [byte] => some byte.toInt
  | [low, high] => some (leNat [low, high])
  | [a, b, c, d] => some (BitVec.ofNat 32 (leNat [a, b, c, d])).toInt
  | _ => none

/-- `ReadMem`, called when the clock shows `now`. -/
def readMem (kernel : VmKernel) (now : Int) (addr : Word) (size : Nat) :
    Option (Int × VmKernel) := do
  let (physicalAddress, kernel) ← kernel.locate now addr size false
  let value ← valueOf (kernel.mainMemory.slice physicalAddress size)
  return (value, kernel)

/-- `WriteMem`, called when the clock shows `now`: the low bytes of the value are stored. -/
def writeMem (kernel : VmKernel) (now : Int) (addr : Word) (size : Nat) (value : Word) :
    Option VmKernel := do
  let (physicalAddress, kernel) ← kernel.locate now addr size true
  if size = 1 ∨ size = 2 ∨ size = 4 then
    return { kernel with
      mainMemory := kernel.mainMemory.store physicalAddress (leBytes size value.toNat) }
  else none

/-- The part of `Scheduler::Run` that loads the next thread: its page table becomes the machine's. -/
def runThread (kernel : VmKernel) (nextThread : Int) : VmKernel :=
  let kernel := { kernel with currentThread := nextThread }
  match kernel.getAddrSpaceOfThread nextThread with
  | some space => { kernel with pageTable := some nextThread, pageTableSize := space.numPages }
  | none => kernel

end VmKernel

/-- What can happen to the memory of the processes, in any order. -/
inductive VmEvent
  -- MemoryManager::createAddrSpace, over leftovers of the stack and of the heap.
  | create (threadId : Int) (filename : FileName) (stack : List Byte) (uninitialised : AddrSpace)
  | delete (threadId : Int)
  | switchTo (threadId : Int)
  -- MemoryManager::pageFaultHandler, raised by the current thread.
  | fault (vpn : Nat)
  -- Machine::ReadMem and Machine::WriteMem, called while the thread named is the current one.
  | read (threadId : Int) (addr : Word) (size : Nat)
  | write (threadId : Int) (addr : Word) (size : Nat) (value : Word)

/-- Serve one event at some time. A read also returns its value. -/
def VmKernel.serve (kernel : VmKernel) (now : Int) : VmEvent → Option (Option Int × VmKernel)
  | .create threadId filename stack uninitialised => do
    let virtMemManager ← kernel.virtMemManager.createAddrSpace kernel.files threadId filename stack
      uninitialised
    return (none, { kernel with virtMemManager })
  | .delete threadId => do
    let (virtMemManager, phyMemManager) ←
      kernel.virtMemManager.deleteAddrSpace kernel.phyMemManager threadId
    -- The machine's pointer to the page table dangles once that is deleted.
    let pageTable := if kernel.pageTable = some threadId then none else kernel.pageTable
    return (none, { kernel with virtMemManager, phyMemManager, pageTable })
  | .switchTo threadId => some (none, kernel.runThread threadId)
  | .fault vpn => do return (none, ← kernel.pageFaultHandler now vpn)
  | .read threadId addr size =>
    if kernel.currentThread = threadId then do
      let (value, kernel) ← kernel.readMem now addr size
      return (some value, kernel)
    else none
  | .write threadId addr size value =>
    if kernel.currentThread = threadId then do
      return (none, ← kernel.writeMem now addr size value)
    else none

/-- One event at some time, without what it returns. -/
def VmKernel.step (kernel : VmKernel) (timed : Int × VmEvent) : Option VmKernel :=
  (kernel.serve timed.1 timed.2).map Prod.snd

end Nachos
