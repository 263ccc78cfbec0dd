import Nachos.Threads.Scheduler
import Nachos.Userprog.AddrSpace
import Nachos.Vm.PhyMem

/-! Virtual memory: the table of address spaces, and the service of page faults. -/

namespace Nachos

/-- Most pages that the address spaces ever created may have in all. -/
abbrev maxVirtPages : Int := 4096

/-- The table of address spaces, by thread. -/
structure VirtMemManager where
  virtPageNums : Int
  virtMemTableSize : Nat
  virtMemTable : Int → Option AddrSpace

namespace VirtMemManager

/-- The constructor: no thread has an address space. -/
def new (size : Nat) : VirtMemManager where
  virtPageNums := 0
  virtMemTableSize := size
  virtMemTable := fun _ => none

/-- The thread numbers that index the table. -/
abbrev InTable (virt : VirtMemManager) (threadId : Int) : Prop :=
  0 ≤ threadId ∧ threadId < virt.virtMemTableSize

/-- `getAddrSpaceOfThread`: nothing stands for the null pointer. -/
def getAddrSpaceOfThread (virt : VirtMemManager) (threadId : Int) : Option AddrSpace :=
  if virt.InTable threadId then virt.virtMemTable threadId else none

/-- `createAddrSpace`: an existing address space stays, and one that is too large is dropped. -/
def createAddrSpace (virt : VirtMemManager) (files : UnixFiles) (mainThreadId : Int)
    (filename : FileName) (stack : List Byte) (uninitialised : AddrSpace) :
    Option VirtMemManager :=
  -- The table is indexed without a check.
  if virt.InTable mainThreadId then
    match virt.virtMemTable mainThreadId with
    | some _ => some virt
    | none => do
      let entry ← AddrSpace.new files mainThreadId filename stack uninitialised
      let size := entry.getNumPages
      if virt.virtPageNums + size > maxVirtPages then return virt
      else return { virt with
        virtMemTable := Function.update virt.virtMemTable mainThreadId (some entry)
        virtPageNums := virt.virtPageNums + size }
  else none

/-- The loop of `deleteAddrSpace`: free the frames of the pages that are resident. -/
def clearPages (entry : AddrSpace) : PhyMemManager → List Nat → Option PhyMemManager
  | phys, [] => some phys
  | phys, i :: rest => do
    let phys ← if (entry.pageTable i).valid then
      phys.clearOnePage (entry.pageTable i).physicalPage else some phys
    clearPages entry phys rest

/-- `deleteAddrSpace`: the count of pages is not lowered. -/
def deleteAddrSpace (virt : VirtMemManager) (phys : PhyMemManager) (threadId : Int) :
    Option (VirtMemManager × PhyMemManager) :=
  match virt.getAddrSpaceOfThread threadId with
  | none => some (virt, phys)
  | some entry => do
    let phys ← clearPages entry phys (List.range entry.numPages)
    return ({ virt with virtMemTable := Function.update virt.virtMemTable threadId none }, phys)

/-- Replace one entry of a thread's page table. -/
def setEntry (virt : VirtMemManager) (threadId : Int) (vpn : Nat) (entry : TranslationEntry) :
    VirtMemManager :=
  { virt with
    virtMemTable := Function.update virt.virtMemTable threadId
      ((virt.virtMemTable threadId).map (·.setEntry vpn entry)) }

end VirtMemManager

/-- The machine's memory: a byte for each physical address. -/
abbrev MainMemory : Type := Nat → Byte

namespace MainMemory

/-- The bytes at an address. -/
def slice (memory : MainMemory) (start size : Nat) : List Byte :=
  (List.range size).map fun i => memory (start + i)

/-- Lay bytes over the memory at an address. -/
def store (memory : MainMemory) (start : Nat) (bytes : List Byte) : MainMemory :=
  fun a => if start ≤ a ∧ a < start + bytes.length then bytes.getD (a - start) 0 else memory a

/-- The bytes of a page frame. -/
def frame (memory : MainMemory) (page : Nat) : List Byte := memory.slice (page * pageSize) pageSize

end MainMemory

/-- The machine and the parts of the kernel that manage its memory. -/
structure VmKernel where
  files : UnixFiles
  mainMemory : MainMemory
  tlb : TLB
  -- The thread whose page table the machine uses, while that table exists.
  pageTable : Option Int
  pageTableSize : Nat
  -- The pid of currentThread, whose space is the one the manager holds for it.
  currentThread : Int
  virtMemManager : VirtMemManager
  phyMemManager : PhyMemManager

namespace VmKernel

/-- A machine that has just been switched on, with nothing loaded. -/
def boot (files : UnixFiles) (mainMemory : MainMemory) (tlb : TLB)
    (owners : Nat → PhyMemPageEntry) (currentThread : Int) : VmKernel where
  files
  mainMemory
  tlb := .new tlb
  pageTable := none
  pageTableSize := 0
  currentThread
  virtMemManager := .new threadCountMax
  phyMemManager := .new numPhysPages owners

/-- `MemoryManager::getAddrSpaceOfThread`. -/
def getAddrSpaceOfThread (kernel : VmKernel) (threadId : Int) : Option AddrSpace :=
  kernel.virtMemManager.getAddrSpaceOfThread threadId

/-- Replace one entry of a thread's page table. -/
def setEntry (kernel : VmKernel) (threadId : Int) (vpn : Nat) (entry : TranslationEntry) :
    VmKernel :=
  { kernel with virtMemManager := kernel.virtMemManager.setEntry threadId vpn entry }

/-- Write a page to the file of its address space, and tell the TLB about it. -/
def writeBack (kernel : VmKernel) (space : AddrSpace) (swapThreadId : Int) (swapVirtPage : Nat)
    (swapPhyPage : Nat) : Option VmKernel := do
  let contents ← kernel.files space.exeFileId
  let contents := writeAt contents (kernel.mainMemory.frame swapPhyPage)
    (AddrSpace.fileOffset swapVirtPage)
  return { kernel with
    files := Function.update kernel.files space.exeFileId (some contents)
    -- invalidEntry takes the thread first, but is passed the page first.
    tlb := kernel.tlb.invalidEntry swapVirtPage swapThreadId.toNat }

/-- Take a frame away from the page that is in it, writing the page back if it is dirty. -/
def swapOut (kernel : VmKernel) : Option (Nat × VmKernel) := do
  let phys := kernel.phyMemManager
  let swapPhyPage := phys.swapOnePage
  let swapThreadId ← phys.getMainThread swapPhyPage
  let swapVirtPage ← phys.getVirtualPage swapPhyPage
  let space ← kernel.getAddrSpaceOfThread swapThreadId
  if 0 ≤ swapVirtPage ∧ swapVirtPage < space.numPages then
    let entry := space.pageTable swapVirtPage.toNat
    let kernel ← if entry.dirty then
      kernel.writeBack space swapThreadId swapVirtPage.toNat swapPhyPage else some kernel
    return (swapPhyPage, kernel.setEntry swapThreadId swapVirtPage.toNat { entry with valid := false })
  else none

/-- Find a frame for a page: a free one, or one taken from another page. -/
def takeFrame (kernel : VmKernel) : Option (Nat × VmKernel) := do
  let (page, phyMemManager) ← kernel.phyMemManager.findOneEmptyPage
  let kernel := { kernel with phyMemManager }
  if page = -1 then kernel.swapOut else return (page.toNat, kernel)

/-- Give the frame to a page of the current thread and read the page into it. -/
def bringIn (kernel : VmKernel) (now : Int) (space : AddrSpace) (vpn swapPhyPage : Nat) :
    Option VmKernel := do
  let phys ← kernel.phyMemManager.setVirtualPage swapPhyPage vpn
  let phys ← phys.setMainThreadId swapPhyPage kernel.currentThread
  let phys ← phys.updatePageWeight swapPhyPage now
  let kernel := { kernel with phyMemManager := phys }
  let entry := space.pageTable vpn
  let kernel := kernel.setEntry kernel.currentThread vpn
    { entry with valid := true, physicalPage := swapPhyPage }
  let contents ← kernel.files space.exeFileId
  return { kernel with
    mainMemory := kernel.mainMemory.store (swapPhyPage * pageSize)
      ((contents.drop (AddrSpace.fileOffset vpn)).take pageSize) }

/-- `pageFaultHandler`, called when the clock shows `now`. -/
def pageFaultHandler (kernel : VmKernel) (now : Int) (vpn : Nat) : Option VmKernel := do
  let space ← kernel.getAddrSpaceOfThread kernel.currentThread
  if vpn < space.numPages then
    if (space.pageTable vpn).valid then return kernel
    else
      let (swapPhyPage, kernel) ← kernel.takeFrame
      -- The current thread may have lost a page of its own to the replacement.
      let space ← kernel.getAddrSpaceOfThread kernel.currentThread
      kernel.bringIn now space vpn swapPhyPage
  else none

end VmKernel

end Nachos
