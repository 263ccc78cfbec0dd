import Nachos.Proofs.Machine.Invisible
import Nachos.Proofs.Vm.FlatMemory
import Nachos.Theory.Backward

/-! The machine with its virtual memory runs a program as a processor with a flat memory does. -/

namespace Nachos

/-- A processor with a flat memory: no translation, no page faults and no delayed loads. -/
structure FlatMachine where
  registers : Nat → Word
  memory : MainMemory

namespace FlatMachine

/-- A program starts at address 0, with a stack that ends near the end of its pages. -/
def start (numPages : Nat) (memory : MainMemory) : FlatMachine where
  registers := fun x =>
    if x = nextPCReg then 4
    else if x = stackReg then BitVec.ofNat 32 (numPages * pageSize) - 16
    else 0
  memory

/-- Change a register. -/
def write (flat : FlatMachine) (num : Nat) (value : Word) : FlatMachine :=
  { flat with registers := Function.update flat.registers num value }

/-- A program may access what is aligned and within its pages. -/
def Allowed (numPages : Nat) (addr : Word) (size : Nat) : Prop :=
  addr.toNat % size = 0 ∧ addr.toNat + size ≤ numPages * pageSize

instance (numPages : Nat) (addr : Word) (size : Nat) : Decidable (Allowed numPages addr size) :=
  inferInstanceAs (Decidable (_ ∧ _))

/-- Read from memory, if that is allowed. -/
def read (numPages : Nat) (flat : FlatMachine) (addr : Word) (size : Nat) : Option Word :=
  if Allowed numPages addr size then
    (VmKernel.valueOf (flat.memory.slice addr.toNat size)).map (BitVec.ofInt 32)
  else none

/-- Store to memory, if that is allowed. -/
def store (numPages : Nat) (flat : FlatMachine) (addr : Word) (size : Nat) (value : Word) :
    Option FlatMachine :=
  if Allowed numPages addr size then
    some { flat with memory := flat.memory.store addr.toNat (leBytes size value.toNat) }
  else none

/-- The end of an instruction. -/
def advance (flat : FlatMachine) (pcAfter : Word) : FlatMachine :=
  let flat := flat.write 0 0
  let flat := flat.write prevPCReg (flat.registers pcReg)
  let flat := flat.write pcReg (flat.registers nextPCReg)
  flat.write nextPCReg pcAfter

/-- The system call that adds, which goes on after its instruction. -/
def sysAdd (flat : FlatMachine) : FlatMachine :=
  let flat := flat.write 2 (flat.registers 4 + flat.registers 5)
  let flat := flat.write prevPCReg (flat.registers pcReg)
  let flat := flat.write pcReg (flat.registers pcReg + 4)
  flat.write nextPCReg (flat.registers pcReg + 4)

/-- An effect of an instruction; nothing stands for the end of the program. -/
def perform (numPages : Nat) (flat : FlatMachine) : Effect → Option FlatMachine
  | .stuck => none
  | .raise which _ =>
    if which = .syscallException ∧ flat.registers 2 = scAdd then some flat.sysAdd else none
  | .compute writes pcAfter =>
    some ((writes.foldl (fun flat write => flat.write write.1 write.2) flat).advance pcAfter)
  | .load addr size rt pcAfter value => do
    let word ← flat.read numPages addr size
    return (flat.write rt (value word (flat.registers rt))).advance pcAfter
  | .store addr size value pcAfter => do
    let flat ← flat.store numPages addr size value
    return flat.advance pcAfter
  | .merge addr rt pcAfter value => do
    let word ← flat.read numPages addr 4
    let flat ← flat.store numPages addr 4 (value word (flat.registers rt))
    return flat.advance pcAfter

/-- One event: the program does not notice the time, nor an interrupt. -/
def step (numPages : Nat) (flat : FlatMachine) : MachineEvent → Option FlatMachine
  | .instruction _ => do
    let raw ← flat.read numPages (flat.registers pcReg) 4
    flat.perform numPages ((Instruction.decode raw).effect flat.registers)
  | .interrupt => some flat

@[simp] theorem write_memory (flat : FlatMachine) (num : Nat) (value : Word) :
    (flat.write num value).memory = flat.memory :=
  rfl

@[simp] theorem write_registers (flat : FlatMachine) (num : Nat) (value : Word) (x : Nat) :
    (flat.write num value).registers x = if x = num then value else flat.registers x :=
  Function.update_apply ..

/-- Register 0 is zero at the end of an instruction, even if it has been written. -/
theorem write_zero_advance (flat : FlatMachine) (value pcAfter : Word) :
    (flat.write 0 value).advance pcAfter = flat.advance pcAfter := by
  simp [advance, write]

end FlatMachine

namespace Machine

variable {threadId : Int} {numPages : Nat} {file : FileName} {machine : Machine}

/-- The machine with a flat memory in place of its own, and without the address of a page fault. -/
def flatten (machine : Machine) (memory : MainMemory) : FlatMachine where
  registers := Function.update machine.registers badVAddrReg 0
  memory

theorem flatten_registers (machine : Machine) (memory : MainMemory) {x : Nat}
    (different : x ≠ badVAddrReg) : (machine.flatten memory).registers x = machine.registers x :=
  Function.update_of_ne different ..

/-- Writing a register may come before or after the memory is replaced. -/
theorem flatten_write (machine : Machine) (memory : MainMemory) {num : Nat}
    (different : num ≠ badVAddrReg) (value : Word) :
    (machine.write num value).flatten memory = (machine.flatten memory).write num value := by
  unfold flatten FlatMachine.write Machine.write
  simp only [Function.update_comm different]

/-- Machines that differ only in the address of the last page fault are flattened alike. -/
theorem flatten_congr {other : Machine}
    (same : ∀ x, x ≠ badVAddrReg → other.registers x = machine.registers x)
    (memory : MainMemory) : other.flatten memory = machine.flatten memory := by
  unfold flatten
  congr 1
  funext x
  by_cases bad : x = badVAddrReg
  · simp [bad]
  · simp [bad, same x bad]

/-- The program counters advance alike. -/
theorem flatten_advance (machine : Machine) (memory : MainMemory) (reg : Nat) (value pcAfter : Word)
    (different : reg ≠ badVAddrReg) :
    ((machine.loadAtOnce reg value).advance pcAfter).flatten memory =
      ((machine.flatten memory).write reg value).advance pcAfter := by
  simp (disch := decide) only [Machine.loadAtOnce, Machine.advance, FlatMachine.advance,
    flatten_write, flatten_write _ _ different]
  simp (disch := decide) [flatten_registers]

/-- The system call that adds is the same. -/
theorem flatten_sysAdd (machine : Machine) (memory : MainMemory) :
    machine.sysAdd.flatten memory = (machine.flatten memory).sysAdd := by
  simp (disch := decide) only [Machine.sysAdd, FlatMachine.sysAdd, flatten_write,
    flatten_registers, FlatMachine.write_registers, Machine.write_registers]

/-- Registers are written one after the other, before or after the memory is replaced. -/
theorem flatten_writes (memory : MainMemory) {writes : List (Nat × Word)}
    (apart : ∀ write ∈ writes, write.1 ≠ badVAddrReg) : ∀ machine : Machine,
      (writes.foldl (fun machine write => machine.write write.1 write.2) machine).flatten memory =
        writes.foldl (fun flat write => flat.write write.1 write.2) (machine.flatten memory) := by
  induction writes with
  | nil => exact fun _ => rfl
  | cons write rest ih =>
    intro machine
    obtain ⟨here, later⟩ := List.forall_mem_cons.mp apart
    rw [List.foldl_cons, List.foldl_cons, ih later, flatten_write _ _ here]

/-- Writing registers changes no others, and nothing of the memory. -/
theorem writes_other {writes : List (Nat × Word)} {x : Nat}
    (apart : ∀ write ∈ writes, write.1 ≠ x) : ∀ machine : Machine,
      (writes.foldl (fun machine write => machine.write write.1 write.2) machine).registers x =
          machine.registers x ∧
        (writes.foldl (fun machine write => machine.write write.1 write.2) machine).kernel =
          machine.kernel := by
  -- By induction on the writes, none of which is to the register.
  induction writes with
  -- Nothing is written.
  | nil => exact fun _ => ⟨rfl, rfl⟩
  | cons write rest ih =>
    intro machine
    -- The first write is to another register, and so are those after it.
    obtain ⟨here, later⟩ := List.forall_mem_cons.mp apart
    obtain ⟨same, kernel⟩ := ih later (machine.write write.1 write.2)
    exact ⟨by rw [List.foldl_cons, same, write_registers, if_neg here.symm],
      by rw [List.foldl_cons, kernel, write_kernel]⟩

/-- A machine without a pending load, on which one process runs. -/
structure Lone (threadId : Int) (numPages : Nat) (file : FileName) (machine : Machine) : Prop where
  idle : machine.Idle
  kernel : machine.kernel.Single threadId numPages file

/-- The states of the flat processor that a machine may stand for. -/
def StandsFor (threadId : Int) (numPages : Nat) (file : FileName) (machine : Machine)
    (flat : FlatMachine) : Prop :=
  ∃ memory, machine.kernel.Backs threadId numPages file memory ∧ flat = machine.flatten memory

/-- How an instruction ends: its load is carried out at once, and its exception is handled. -/
def Executed.ending (now : Int) : Executed → Option Machine
  | .finished machine pcAfter nextLoadReg nextLoadValue =>
    some ((machine.loadAtOnce nextLoadReg nextLoadValue).advance pcAfter)
  | .trapped which machine => machine.exceptionHandler now which

/-- What is allowed is aligned and on a page of the address space. -/
theorem allowed_iff {addr : Word} {size : Nat} (sized : size = 1 ∨ size = 2 ∨ size = 4) :
    FlatMachine.Allowed numPages addr size ↔
      addr.toNat % size = 0 ∧ addr.toNat / pageSize < numPages := by
  unfold FlatMachine.Allowed
  simp only [pageSize]
  rcases sized with rfl | rfl | rfl <;> omega

/-- Where the kernel finds a page, the machine does. -/
theorem Idle.locate (idle : machine.Idle) {now : Int} {addr : Word} {size physAddr : Nat}
    {writing : Bool} {next : VmKernel}
    (located : machine.kernel.locate now addr size writing = some (physAddr, next)) :
    ∃ after, machine.locate now addr size writing = some (.ok physAddr, after) ∧
      after.kernel = next ∧ after.Idle ∧
      ∀ x, x ≠ badVAddrReg → after.registers x = machine.registers x := by
  -- The kernel finds the page at once, or after a page fault.
  obtain ⟨middle, result, translated, rfl, rfl | ⟨missed, faulted, handled⟩⟩ :=
    VmKernel.locate_cases located
  · -- The translation succeeds at once.
    refine ⟨{ machine with kernel := next }, ?_, rfl,
      ⟨idle.load, idle.loadValue, idle.zero⟩, fun _ _ => rfl⟩
    simp [Machine.locate, translated]
  · -- The page fault is served, with the address that the machine reports.
    have raised := idle.raiseException_registers addr
    have reported : (machine.raiseException addr).registers badVAddrReg = addr := by
      rw [raised, if_pos rfl]
    obtain ⟨load, loadValue, zero⟩ := idle_raiseException machine addr
    refine ⟨{ machine.raiseException addr with kernel := next }, ?_, rfl,
      ⟨load, loadValue, zero⟩, fun x different => (raised x).trans (if_neg different)⟩
    -- This does not depend on what the kernel has missed.
    have reported' : ({ machine with kernel := missed }.raiseException addr).registers
        badVAddrReg = addr := reported
    have kernel : ({ machine with kernel := missed }.raiseException addr).kernel = missed := rfl
    -- The handler serves it, and the translation is tried again.
    simp only [Machine.locate, faulted, Machine.exceptionHandler, reported', kernel, handled,
      translated, Option.bind_eq_bind, Option.bind_some, Option.pure_def]
    rfl

namespace Lone

variable {now : Int} {addr : Word} {size : Nat}

/-- A machine stands for some flat processor. -/
theorem standsFor_some (lone : machine.Lone threadId numPages file) :
    ∃ memory, machine.StandsFor threadId numPages file (machine.flatten memory) := by
  obtain ⟨memory, backs⟩ := lone.kernel.backs_some
  exact ⟨memory, memory, backs, rfl⟩

/-- An access that is not allowed is an address error. -/
theorem locate_refused (lone : machine.Lone threadId numPages file)
    (sized : size = 1 ∨ size = 2 ∨ size = 4)
    (refused : ¬ FlatMachine.Allowed numPages addr size) (writing : Bool) :
    machine.locate now addr size writing =
      some (.error (.memoryException .addressErrorException), machine.raiseException addr) := by
  rw [allowed_iff sized] at refused
  simp [Machine.locate, lone.kernel.refused sized refused writing]

/-- An access that is allowed finds its page. -/
theorem locate (lone : machine.Lone threadId numPages file)
    (sized : size = 1 ∨ size = 2 ∨ size = 4) (allowed : FlatMachine.Allowed numPages addr size)
    (spares : machine.kernel.Spares addr) (writing : Bool) (now : Int) :
    ∃ page after, machine.locate now addr size writing =
        some (.ok (page * pageSize + addr.toNat % pageSize), after) ∧
      after.Lone threadId numPages file ∧
      (∀ x, x ≠ badVAddrReg → after.registers x = machine.registers x) ∧
      after.kernel.Resident threadId (addr.toNat / pageSize) (page : Nat) ∧
      ∀ memory, after.kernel.Backs threadId numPages file memory →
        machine.kernel.Backs threadId numPages file memory := by
  -- An allowed access is aligned and within the pages.
  obtain ⟨aligned, below⟩ := (allowed_iff sized).mp allowed
  -- The kernel has the page, or brings it in.
  obtain ⟨page, next, located, single, resident, back⟩ :=
    lone.kernel.locate sized aligned below spares writing now
  -- The machine goes the same way.
  obtain ⟨after, found, rfl, idle, registers⟩ := lone.idle.locate located
  exact ⟨page, after, found, ⟨idle, single⟩, registers, resident, back⟩

/-- A page that is in memory is accessed without a page fault. -/
theorem spares_of_resident (lone : machine.Lone threadId numPages file) {page : Int}
    (resident : machine.kernel.Resident threadId (addr.toNat / pageSize) page) :
    machine.kernel.Spares addr := fun faults _ =>
  absurd resident (lone.kernel.current ▸ faults.2 page)

/-- What is read is what any flat memory has there that the machine stands for afterwards. -/
theorem readMem (lone : machine.Lone threadId numPages file)
    (sized : size = 1 ∨ size = 2 ∨ size = 4) (allowed : FlatMachine.Allowed numPages addr size)
    (spares : machine.kernel.Spares addr) (now : Int) :
    ∃ value after, machine.readMem now addr size = some (.ok value, after) ∧
      after.Lone threadId numPages file ∧ after.kernel.Spares addr ∧
      (∀ x, x ≠ badVAddrReg → after.registers x = machine.registers x) ∧
      ∀ memory, after.kernel.Backs threadId numPages file memory →
        machine.kernel.Backs threadId numPages file memory ∧
        (machine.flatten memory).read numPages addr size = some value := by
  -- The place is found, with the page in memory.
  obtain ⟨page, after, located, lone', registers, resident, back⟩ :=
    lone.locate sized allowed spares false now
  -- The bytes do not reach beyond the page.
  have fits := VmKernel.fits_of_aligned sized ((allowed_iff sized).mp allowed).1
  have length := after.kernel.mainMemory.length_slice (page * pageSize + addr.toNat % pageSize) size
  obtain ⟨value, valued⟩ := VmKernel.valueOf_some (length.symm ▸ sized)
  refine ⟨BitVec.ofInt 32 value, after, ?_, lone', lone'.spares_of_resident resident, registers,
    -- The flat memory that the machine stands for has the same bytes there.
    fun memory backs => ⟨back memory backs, ?_⟩⟩
  · -- The machine reads these bytes.
    simp [Machine.readMem, located, valued]
  · -- So does the flat memory.
    rw [backs.slice resident fits] at valued
    simp [FlatMachine.read, allowed, flatten, valued]

/-- An instruction that goes on with what it reads is explained by what it does with that. -/
theorem reading (lone : machine.Lone threadId numPages file)
    (sized : size = 1 ∨ size = 2 ∨ size = 4) (spares : machine.kernel.Spares addr)
    {rest : Word → Machine → Option Executed} (spec : Word → FlatMachine → Option FlatMachine)
    (next : ∀ value after, machine.readMem now addr size = some (.ok value, after) →
      after.Lone threadId numPages file → after.kernel.Spares addr →
      (∀ x, x ≠ badVAddrReg → after.registers x = machine.registers x) →
      Explained (Lone threadId numPages file) (StandsFor threadId numPages file) after (spec value)
        ((rest value after).bind (Executed.ending now))) :
    Explained (Lone threadId numPages file) (StandsFor threadId numPages file) machine
      (fun flat => (flat.read numPages addr size).bind fun value => spec value flat)
      ((machine.reading now addr size rest).bind (Executed.ending now)) := by
  -- The access is allowed, and then the value is the same on both sides.
  by_cases allowed : FlatMachine.Allowed numPages addr size
  · obtain ⟨value, after, read, lone', spares', registers, back⟩ :=
      lone.readMem sized allowed spares now
    -- The machine goes on with the value.
    have ended : machine.reading now addr size rest = rest value after := by
      simp [Machine.reading, read]
    rw [ended]
    apply (next value after read lone' spares' registers).from_earlier
    rintro _ ⟨memory, backs, rfl⟩
    obtain ⟨backs, same⟩ := back memory backs
    rw [flatten_congr registers]
    -- The flat processor goes on with the same one.
    exact ⟨_, ⟨memory, backs, rfl⟩, by rw [same, Option.bind_some]⟩
  · -- The address error ends the program on both sides.
    obtain ⟨memory, stands⟩ := lone.standsFor_some
    have ended : (machine.reading now addr size rest).bind (Executed.ending now) = none := by
      simp [Machine.reading, Machine.readMem, lone.locate_refused sized allowed, Executed.ending,
        Machine.exceptionHandler]
    rw [ended]
    -- The flat processor refuses the address as well.
    exact ⟨_, stands, by simp [FlatMachine.read, allowed]⟩

/-- An instruction that is done with its registers is explained by the same registers. -/
theorem finished (machine : Machine) {next : Machine} (lone : next.Lone threadId numPages file)
    (kernel : next.kernel = machine.kernel) {spec : FlatMachine → Option FlatMachine}
    (same : ∀ memory, spec (machine.flatten memory) = some (next.flatten memory)) :
    Explained (Lone threadId numPages file) (StandsFor threadId numPages file) machine spec
      (some next) := by
  refine ⟨lone, ?_⟩
  rintro _ ⟨memory, backs, rfl⟩
  exact ⟨_, ⟨memory, kernel ▸ backs, rfl⟩, same memory⟩

/-- The end of an instruction leaves no load pending. -/
theorem advance (single : machine.kernel.Single threadId numPages file)
    (load : machine.registers loadReg = 0) (loadValue : machine.registers loadValueReg = 0)
    {reg : Nat} (small : reg < numGPRegs) (value pcAfter : Word) :
    ((machine.loadAtOnce reg value).advance pcAfter).Lone threadId numPages file := by
  have apart : loadReg ≠ reg ∧ loadValueReg ≠ reg := by
    simp only [numGPRegs, loadReg, loadValueReg] at *
    omega
  refine ⟨⟨?_, ?_, ?_⟩, single⟩ <;>
    simp [Machine.advance, Machine.loadAtOnce, load, loadValue, apart]

/-- A store is explained by one to the flat memory. -/
theorem writing (lone : machine.Lone threadId numPages file)
    (sized : size = 1 ∨ size = 2 ∨ size = 4) (spares : machine.kernel.Spares addr)
    (value pcAfter : Word) :
    Explained (Lone threadId numPages file) (StandsFor threadId numPages file) machine
      (fun flat => (flat.store numPages addr size value).bind fun flat =>
        some (flat.advance pcAfter))
      ((machine.writing now addr size value pcAfter).bind (Executed.ending now)) := by
  -- The access is allowed, and then the store is one to the flat memory.
  by_cases allowed : FlatMachine.Allowed numPages addr size
  · obtain ⟨page, after, located, lone', registers, resident, back⟩ :=
      lone.locate sized allowed spares true now
    have fits := VmKernel.fits_of_aligned sized ((allowed_iff sized).mp allowed).1
    -- The machine after the store.
    let stored : Machine := { after with
      kernel := { after.kernel with
        mainMemory := after.kernel.mainMemory.store (page * pageSize + addr.toNat % pageSize)
          (leBytes size value.toNat) } }
    have ended : (machine.writing now addr size value pcAfter).bind (Executed.ending now) =
        some ((stored.loadAtOnce 0 0).advance pcAfter) := by
      simp [Machine.writing, Machine.writeMem, located, Executed.ending, Machine.done, stored]
    have single : stored.kernel.Single threadId numPages file := lone'.kernel.stored _
    have load : stored.registers loadReg = 0 := lone'.idle.load
    have loadValue : stored.registers loadValueReg = 0 := lone'.idle.loadValue
    rw [ended]
    refine ⟨Lone.advance single load loadValue (by decide) 0 pcAfter, ?_⟩
    rintro _ ⟨memory, after, rfl⟩
    -- The flat memory before the store is one that the machine stands for.
    obtain ⟨before, backs, rfl⟩ := lone'.kernel.store resident
      (by rw [length_leBytes]; exact fits) after
    refine ⟨_, ⟨before, back before backs, rfl⟩, ?_⟩
    have same : stored.flatten (before.store addr.toNat (leBytes size value.toNat)) =
        { machine.flatten before with
          memory := before.store addr.toNat (leBytes size value.toNat) } :=
      flatten_congr registers _
    rw [flatten_advance _ _ 0 0 pcAfter (by decide), FlatMachine.write_zero_advance, same]
    simp [FlatMachine.store, allowed, flatten]
  · -- The address error ends the program on both sides.
    obtain ⟨memory, stands⟩ := lone.standsFor_some
    have ended : (machine.writing now addr size value pcAfter).bind (Executed.ending now) =
        none := by
      simp [Machine.writing, Machine.writeMem, lone.locate_refused sized allowed, Executed.ending,
        Machine.exceptionHandler]
    rw [ended]
    exact ⟨_, stands, by simp [FlatMachine.store, allowed]⟩

/-- An exception ends the program, but for the system call that adds. -/
theorem raise (lone : machine.Lone threadId numPages file) {which : MachineException}
    (other : which ≠ .memoryException .pageFaultException) (badVAddr : Word) :
    Explained (Lone threadId numPages file) (StandsFor threadId numPages file) machine
      (fun flat => flat.perform numPages (.raise which badVAddr))
      ((machine.raiseException badVAddr).exceptionHandler now which) := by
  have registers := lone.idle.raiseException_registers badVAddr
  have number : (machine.raiseException badVAddr).registers 2 = machine.registers 2 := by
    rw [registers, if_neg (by decide)]
  -- By whether the exception is the system call that adds.
  by_cases call : which = .syscallException ∧ machine.registers 2 = scAdd
  · -- The call adds on both sides, and the program goes on.
    obtain ⟨rfl, add⟩ := call
    have handled : (machine.raiseException badVAddr).exceptionHandler now .syscallException =
        some (machine.raiseException badVAddr).sysAdd :=
      if_pos (number.trans add)
    rw [handled]
    refine finished machine ⟨(idle_raiseException machine badVAddr).exceptionHandler handled,
      lone.kernel⟩ rfl fun memory => ?_
    rw [flatten_sysAdd, flatten_congr fun x different => (registers x).trans (if_neg different)]
    exact if_pos ⟨rfl, (flatten_registers machine memory (by decide)).trans add⟩
  · -- Any other exception ends the program.
    have handled : (machine.raiseException badVAddr).exceptionHandler now which = none := by
      unfold Machine.exceptionHandler
      split
      · exact if_neg fun add => call ⟨rfl, number.symm.trans add⟩
      · exact absurd rfl other
      · rfl
    obtain ⟨memory, stands⟩ := lone.standsFor_some
    rw [handled]
    refine ⟨_, stands, if_neg fun add => call ⟨add.1, ?_⟩⟩
    rw [← add.2, flatten_registers machine memory (by decide)]

/-- Every effect is explained by the same effect on a flat processor. -/
theorem perform (lone : machine.Lone threadId numPages file) {instr : Instruction}
    (small : instr.rs < numGPRegs ∧ instr.rt < numGPRegs ∧ instr.rd < numGPRegs)
    {effect : Effect} (keeps : effect.Keeps instr)
    (spares : ∀ addr ∈ effect.address, machine.kernel.Spares addr) :
    Explained (Lone threadId numPages file) (StandsFor threadId numPages file) machine
      (fun flat => flat.perform numPages effect)
      ((effect.perform machine now).bind (Executed.ending now)) := by
  -- No instruction names the register in which an exception reports its address.
  have general : ∀ {x : Nat}, x < numGPRegs → x ≠ badVAddrReg := fun less =>
    Nat.ne_of_lt (Nat.lt_trans less (by decide))
  -- By cases on the effect.
  cases effect with
  -- What the machine does not do is not explained by anything more.
  | stuck =>
    obtain ⟨memory, stands⟩ := lone.standsFor_some
    exact ⟨_, stands, rfl⟩
  | raise which badVAddr => exact lone.raise keeps badVAddr
  | compute writes pcAfter =>
    -- What is written are general registers, or those of a product.
    have apart : ∀ x ∈ [loadReg, loadValueReg, badVAddrReg], ∀ write ∈ writes, write.1 ≠ x := by
      intro x special write member equal
      have large : numGPRegs ≤ x ∧ x ≠ hiReg ∧ x ≠ loReg := by
        simp only [List.mem_cons, List.not_mem_nil, or_false] at special
        rcases special with rfl | rfl | rfl <;> decide
      rcases keeps write member with touched | hi | lo
      · have := Instruction.touches_small instr small touched
        omega
      · exact large.2.1 (equal.symm.trans hi)
      · exact large.2.2 (equal.symm.trans lo)
    -- So no load becomes pending, and the kernel stays as it is.
    obtain ⟨load, kernel⟩ := writes_other (apart loadReg (by simp)) machine
    obtain ⟨loadValue, -⟩ := writes_other (apart loadValueReg (by simp)) machine
    have ended := Lone.advance (kernel.symm ▸ lone.kernel) (load.trans lone.idle.load)
      (loadValue.trans lone.idle.loadValue) (show 0 < numGPRegs by decide) 0 pcAfter
    refine finished machine ended kernel fun memory => ?_
    rw [flatten_advance _ _ 0 0 pcAfter (by decide), FlatMachine.write_zero_advance,
      flatten_writes memory (apart badVAddrReg (by simp))]
    rfl
  -- The word that is loaded goes to the register at once.
  | load addr size rt pcAfter value =>
    obtain ⟨rfl, sized⟩ := keeps
    refine lone.reading sized (spares addr rfl) (fun word flat =>
      some ((flat.write instr.rt (value word (flat.registers instr.rt))).advance pcAfter))
      fun word after _ lone' _ _ => ?_
    -- Without a pending load nothing is merged.
    have merged : after.merged instr.rt = after.registers instr.rt := by
      unfold Machine.merged
      rw [lone'.idle.load, lone'.idle.loadValue]
      split
      · rename_i zero
        rw [← zero]
        exact lone'.idle.zero.symm
      · rfl
    have ended := Lone.advance lone'.kernel lone'.idle.load lone'.idle.loadValue small.2.1
      (value word (after.merged instr.rt)) pcAfter
    refine finished after ended rfl fun memory => ?_
    rw [flatten_advance _ _ _ _ pcAfter (general small.2.1), merged,
      flatten_registers _ _ (general small.2.1)]
  -- A store is one to the flat memory.
  | store addr size value pcAfter => exact lone.writing keeps (spares addr rfl) value pcAfter
  -- The word is read, merged, and stored again.
  | merge addr rt pcAfter value =>
    obtain ⟨rfl, -⟩ := keeps
    refine lone.reading (.inr (.inr rfl)) (spares addr rfl) (fun word flat =>
      (flat.store numPages addr 4 (value word (flat.registers instr.rt))).bind fun flat =>
        some (flat.advance pcAfter)) fun word after _ lone' spares' _ => ?_
    -- The word that is stored is made from the same register.
    apply (lone'.writing (.inr (.inr rfl)) spares' (value word (after.registers instr.rt))
      pcAfter).from_earlier
    rintro _ ⟨memory, backs, rfl⟩
    refine ⟨_, ⟨memory, backs, rfl⟩, ?_⟩
    rw [flatten_registers _ _ (general small.2.1)]

/-- An instruction without delayed loads is explained by the same one on a flat processor. -/
theorem referenceInstruction (lone : machine.Lone threadId numPages file)
    (code : machine.kernel.Spares (machine.registers pcReg))
    (data : ∀ raw after, machine.readMem now (machine.registers pcReg) 4 = some (.ok raw, after) →
      ∀ addr ∈ ((Instruction.decode raw).effect machine.registers).address,
        after.kernel.Spares addr) :
    Explained (Lone threadId numPages file) (StandsFor threadId numPages file) machine
      (fun flat => flat.step numPages (.instruction now)) (machine.referenceInstruction now) := by
  -- The operands are the same, even if the fetch has had a page fault.
  have congr : ∀ {first second : Nat → Word} (raw : Word),
      (∀ x, x ≠ badVAddrReg → second x = first x) →
      (Instruction.decode raw).effect second = (Instruction.decode raw).effect first := by
    intro first second raw same
    have small := Instruction.decode_small raw
    exact Instruction.effect_congr _
      (fun x touched => same x (Nat.ne_of_lt (Nat.lt_trans
        (Instruction.touches_small _ small touched) (by decide))))
      (same _ (by decide)) (same _ (by decide)) (same _ (by decide))
  -- The fetch is a read of the flat memory, and what is decoded is the same.
  have fetched : Explained (Lone threadId numPages file) (StandsFor threadId numPages file) machine
      (fun flat => (flat.read numPages (machine.registers pcReg) 4).bind fun raw =>
        flat.perform numPages ((Instruction.decode raw).effect flat.registers))
      ((machine.fetchExecute now).bind (Executed.ending now)) := by
    refine lone.reading (.inr (.inr rfl)) code
      (fun raw flat => flat.perform numPages ((Instruction.decode raw).effect flat.registers))
      fun raw after read lone' _ registers => ?_
    have same := congr raw registers
    -- The instruction has the same effect, and the rest is that effect.
    rw [execute_eq, same]
    apply (lone'.perform (Instruction.decode_small raw) (Instruction.effect_keeps _ _)
      (data raw after read)).from_earlier
    rintro _ ⟨memory, backs, rfl⟩
    refine ⟨_, ⟨memory, backs, rfl⟩, ?_⟩
    -- The effect does not depend on the page fault.
    rw [congr raw fun x different => flatten_registers after memory different, same]
  -- The program counter is the same on both sides.
  apply fetched.from_earlier
  rintro _ ⟨memory, backs, rfl⟩
  refine ⟨_, ⟨memory, backs, rfl⟩, ?_⟩
  -- The flat processor fetches from the same place.
  have pc := flatten_registers machine memory (show pcReg ≠ badVAddrReg by decide)
  simp only [FlatMachine.step, pc]
  rfl

end Lone

/--
The instruction throws out no page that cannot come back as it is.

That is so for the page fault of its fetch, if there is one, and then for that of its data.
-/
def Spares (machine : Machine) : MachineEvent → Prop
  | .instruction now => machine.kernel.Spares (machine.registers pcReg) ∧
    ∀ raw after, machine.readMem now (machine.registers pcReg) 4 = some (.ok raw, after) →
      ∀ addr ∈ ((Instruction.decode raw).effect machine.registers).address,
        after.kernel.Spares addr
  | .interrupt => True

/-- One event on the machine is explained by the same event on a flat processor. -/
theorem WellFormed.explained (wellFormed : machine.WellFormed)
    (single : machine.kernel.Single threadId numPages file) {event : MachineEvent}
    (hazardFree : machine.HazardFree event) (spares : machine.Spares event) :
    Explained (fun machine => machine.WellFormed ∧ machine.kernel.Single threadId numPages file)
      (fun machine => machine.settle.StandsFor threadId numPages file) machine
      (fun flat => flat.step numPages event) (machine.step event) := by
  -- With its pending load carried out, the machine has no load pending.
  have lone : machine.settle.Lone threadId numPages file :=
    ⟨idle_delayedLoad machine, single⟩
  have follows := wellFormed.follows
  have explained : Explained (Lone threadId numPages file) (StandsFor threadId numPages file)
      machine.settle (fun flat => flat.step numPages event)
      (machine.settle.referenceStep event) := by
    -- An interrupt is not seen; an instruction is that of the lemma.
    cases event with
    | interrupt => exact Lone.finished _ lone rfl fun _ => rfl
    | instruction now =>
      have pc : machine.settle.registers pcReg = machine.registers pcReg :=
        follows.lags.special (by decide) (by decide) (by decide)
      have kept := (keepsOut_iff now).mp hazardFree
      refine lone.referenceInstruction (pc.symm ▸ spares.1) fun raw after read addr named => ?_
      -- The same instruction is fetched, whether or not the pending load has been carried out.
      have related : Option.Rel (Accessed machine)
          (machine.readMem now (machine.registers pcReg) 4)
          (machine.settle.readMem now (machine.registers pcReg) 4) := follows.lags.readMem
      rw [pc] at read
      rw [read] at related
      generalize found : machine.readMem now (machine.registers pcReg) 4 = answer at related
      cases related with
      | some accessed =>
        cases accessed with
        | @ok _ before _ lags clear =>
          have small := Instruction.decode_small raw
          have same : (Instruction.decode raw).effect machine.settle.registers =
              (Instruction.decode raw).effect machine.registers :=
            Instruction.effect_congr _
              (fun x touched => follows.lags.general
                (Instruction.touches_small _ small touched) (kept raw ⟨before, found⟩ x touched))
              (follows.lags.special (by decide) (by decide) (by decide))
              (follows.lags.special (by decide) (by decide) (by decide))
              (follows.lags.special (by decide) (by decide) (by decide))
          rw [same] at named
          rw [lags.kernel]
          exact spares.2 raw before found addr named
  -- What the machine does follows what the reference machine does.
  have stepped : Option.Rel Follows (machine.step event)
      (machine.settle.referenceStep event) := follows.step hazardFree
  generalize machine.settle.referenceStep event = ahead at explained stepped
  generalize machine.step event = ended at stepped
  -- Both abort, or both go on.
  cases stepped with
  | none => exact explained
  | some follows =>
    obtain rfl := follows.eq_settle
    exact ⟨⟨⟨follows.zero, follows.lags.target⟩, explained.1.kernel⟩, explained.2⟩

/-- A run of the machine is explained by a run of a flat processor, from some memory. -/
theorem WellFormed.replay_explained (wellFormed : machine.WellFormed)
    (single : machine.kernel.Single threadId numPages file) {events : List MachineEvent}
    (hazardFree : EveryStep Machine.step HazardFree machine events)
    (spares : EveryStep Machine.step Machine.Spares machine events) :
    ∃ memory, machine.kernel.Backs threadId numPages file memory ∧
      Option.Rel (fun machine flat => machine.settle.StandsFor threadId numPages file flat)
        (replay Machine.step machine events)
        (replay (FlatMachine.step numPages) (machine.settle.flatten memory) events) := by
  -- In every state there is a memory that the machine stands for.
  have total : ∀ machine : Machine,
      machine.WellFormed ∧ machine.kernel.Single threadId numPages file →
        ∃ flat, machine.settle.StandsFor threadId numPages file flat := by
    intro machine holds
    obtain ⟨memory, backs⟩ := holds.2.backs_some
    exact ⟨_, memory, backs, rfl⟩
  -- The memory is found by going backwards, since a page is looked at only when it is needed.
  obtain ⟨_, ⟨memory, backs, rfl⟩, ran⟩ := replay_backward total
    (fun machine event holds guarded => holds.1.explained holds.2 guarded.1 guarded.2)
    ⟨wellFormed, single⟩ (hazardFree.and spares)
  exact ⟨memory, backs, ran⟩

/-- A program starts as it does on a flat processor. -/
theorem settle_initRegisters (machine : Machine) (numPages : Nat) (memory : MainMemory) :
    (machine.initRegisters numPages).settle.flatten memory = .start numPages memory := by
  have idle : (machine.initRegisters numPages).Idle := by
    constructor <;> simp [Machine.initRegisters]
  -- Nothing is pending at the start.
  rw [idle.settle_eq]
  unfold flatten FlatMachine.start
  congr 1
  funext x
  -- The registers at the start are those of the flat processor, one by one.
  by_cases bad : x = badVAddrReg
  · simp [bad]
  by_cases stack : x = stackReg
  · simp [Machine.initRegisters, stack]
  · simp [Machine.initRegisters, bad, stack]

end Machine

/-- A process that has just been loaded is alone on its machine, with none of its pages there. -/
theorem single_launched {files : UnixFiles} {mainMemory : MainMemory} {tlb : TLB}
    {owners : Nat → PhyMemPageEntry} {threadId created loaded : Int} {filename : FileName}
    {stack : List Byte} {uninitialised : AddrSpace} {kernel : VmKernel}
    (inTable : 0 ≤ threadId ∧ threadId < threadCountMax)
    (runnable : VmKernel.Runnable files filename stack)
    (launched : replay VmKernel.step (.boot files mainMemory tlb owners threadId)
      [(created, .create threadId filename stack uninitialised), (loaded, .switchTo threadId)] =
      some kernel)
    (live : (kernel.getAddrSpaceOfThread threadId).isSome) :
    kernel.Single threadId kernel.pageTableSize filename ∧ kernel.files = files ∧
      ∀ v page, ¬ kernel.Resident threadId v page := by
  obtain ⟨numPages, table, mirror, -⟩ := Observed.faithful_start inTable runnable launched live
  -- The page table is as long as the space.
  have size : kernel.pageTableSize = numPages := mirror.size
  obtain ⟨contents, -, rfl⟩ := Observed.launched_eq inTable runnable launched live
  refine ⟨size ▸ VmKernel.single_of_mirror mirror table, rfl, fun v page resident => ?_⟩
  -- What is in memory has been noted, and nothing has been noted yet.
  obtain ⟨frame, rfl, -⟩ := table.recorded _ _ _ resident
  cases (mirror.inside v frame resident).1

/-- A machine that cannot be told from a flat processor: the registers, and the pages in memory. -/
def FlatMachine.Shows (threadId : Int) (machine : Machine) (flat : FlatMachine) : Prop :=
  (∀ x, x ≠ badVAddrReg → machine.settle.registers x = flat.registers x) ∧
    ∀ v (page : Nat), machine.kernel.Resident threadId v page → ∀ i < pageSize,
      machine.kernel.mainMemory (page * pageSize + i) = flat.memory (v * pageSize + i)

/-- A process that has just been loaded runs as on a flat processor, from what is in its file. -/
theorem launched_explained {threadId : Int} {numPages : Nat} {file : FileName} {kernel : VmKernel}
    (single : kernel.Single threadId numPages file)
    (absent : ∀ v page, ¬ kernel.Resident threadId v page) {contents : List Byte}
    (opened : kernel.files file = some contents) {registers : Nat → Word}
    {events : List MachineEvent}
    (hazardFree : EveryStep Machine.step Machine.HazardFree
      (Machine.initRegisters ⟨registers, kernel⟩ numPages) events)
    (spares : EveryStep Machine.step Machine.Spares
      (Machine.initRegisters ⟨registers, kernel⟩ numPages) events) :
    ∃ memory : MainMemory, (∀ a < numPages * pageSize, ∀ byte,
        contents[sizeofNoffHeader + a]? = some byte → memory a = byte) ∧
      Option.Rel (fun machine flat => flat.Shows threadId machine)
        (replay Machine.step (Machine.initRegisters ⟨registers, kernel⟩ numPages) events)
        (replay (FlatMachine.step numPages) (.start numPages memory) events) := by
  -- The processor starts from registers that are well formed.
  have wellFormed := Machine.wellFormed_initRegisters ⟨registers, kernel⟩ numPages
  obtain ⟨memory, backs, ran⟩ := wellFormed.replay_explained single hazardFree spares
  rw [Machine.settle_initRegisters] at ran
  -- The memory that is found begins as the file does.
  refine ⟨memory, fun a inside byte there => ?_, rel_mono ran fun machine flat _ stands => ?_⟩
  · -- A page that is not in memory is as in the file.
    have found := backs.outside (a / pageSize) (by simp only [pageSize] at *; omega) (absent _)
      contents opened (a % pageSize) (by simp only [pageSize]; omega) byte
    have whole : a / pageSize * pageSize + a % pageSize = a := by simp only [pageSize]; omega
    -- Its place in the file is behind the header.
    have place : AddrSpace.fileOffset (a / pageSize) + a % pageSize = sizeofNoffHeader + a := by
      unfold AddrSpace.fileOffset
      omega
    rw [whole, place] at found
    exact found there
  · -- The registers agree, and so do the pages that are in memory.
    obtain ⟨memory, backs, rfl⟩ := stands
    exact ⟨fun x different => (Machine.flatten_registers _ _ different).symm, backs.inside⟩

/--
With its TLB, its page tables, its page faults and its delayed loads, the machine runs a program as
a processor with a flat memory does.

The process starts on a machine of its own. No instruction uses a register while a load of it is
pending, and no page is thrown out that cannot come back as it is. Then there is a flat memory,
which begins with what the object file has after its header, so that the two run alike: either both
stop, or both go through with all the events, and have the same registers and the same memory.
-/
theorem machine_refinesFlat (files : UnixFiles) (mainMemory : MainMemory) (tlb : TLB)
    (owners : Nat → PhyMemPageEntry) (threadId created loaded : Int) (filename : FileName)
    (stack : List Byte) (uninitialised : AddrSpace) (kernel : VmKernel)
    (inTable : 0 ≤ threadId ∧ threadId < threadCountMax)
    (runnable : VmKernel.Runnable files filename stack)
    (launched : replay VmKernel.step (.boot files mainMemory tlb owners threadId)
      [(created, .create threadId filename stack uninitialised), (loaded, .switchTo threadId)] =
      some kernel)
    (live : (kernel.getAddrSpaceOfThread threadId).isSome)
    (registers : Nat → Word) (events : List MachineEvent)
    (hazardFree : EveryStep Machine.step Machine.HazardFree
      (Machine.initRegisters ⟨registers, kernel⟩ kernel.pageTableSize) events)
    (spares : EveryStep Machine.step Machine.Spares
      (Machine.initRegisters ⟨registers, kernel⟩ kernel.pageTableSize) events) :
    ∃ contents memory, files filename = some contents ∧
      (∀ a < kernel.pageTableSize * pageSize, ∀ byte,
        contents[sizeofNoffHeader + a]? = some byte → memory a = byte) ∧
      Option.Rel (fun machine flat => flat.Shows threadId machine)
        (replay Machine.step (Machine.initRegisters ⟨registers, kernel⟩ kernel.pageTableSize)
          events)
        (replay (FlatMachine.step kernel.pageTableSize) (.start kernel.pageTableSize memory)
          events) := by
  -- The space is the only one, and none of its pages is in memory.
  obtain ⟨single, same, absent⟩ := single_launched inTable runnable launched live
  obtain ⟨contents, opened⟩ := single.opened
  -- From there the process is explained by a flat processor.
  obtain ⟨memory, begins, ran⟩ := launched_explained single absent opened hazardFree spares
  exact ⟨contents, memory, same ▸ opened, begins, ran⟩

/-- A text that stores a number after the page of the text, and loads it from there. -/
def storeText : List Byte := [0x24060007, 0xac060100, 0x8c070100, 0].flatMap (leBytes 4)

/-- An object file whose first page is that text. -/
def storeProgram : List Byte := emptyProgram ++ storeText ++ .replicate 112 0

/-- The program on a machine of its own, before its first instruction. -/
def storeLaunch : Option VmKernel :=
  replay VmKernel.step
    (.boot (fun _ => some storeProgram) (fun _ => 5) (fun _ _ => ⟨0, 0, true, 0, 0⟩)
      (fun _ => ⟨0, 0⟩) 0)
    [(1, .create 0 [1] [] ⟨0, 0, [], AddrSpace.freshEntry⟩), (2, .switchTo 0)]

/-- The instructions of the program, with an interrupt between them. -/
def storeEvents : List MachineEvent :=
  [.instruction 3, .instruction 4, .interrupt, .instruction 5, .instruction 6]

/-- There are free frames, before and after the instruction is fetched. -/
def Machine.Roomy (machine : Machine) : MachineEvent → Prop
  | .instruction now => ¬ machine.kernel.Full ∧
    ∀ answer ∈ machine.readMem now (machine.registers pcReg) 4, ¬ answer.2.kernel.Full
  | .interrupt => True

instance (machine : Machine) : DecidablePred machine.Roomy
  | .instruction now => inferInstanceAs (Decidable (¬ machine.kernel.Full ∧
      ∀ answer ∈ machine.readMem now (machine.registers pcReg) 4, ¬ answer.2.kernel.Full))
  | .interrupt => isTrue trivial

/-- While there are free frames, no page is thrown out. -/
theorem Machine.spares_of_roomy {machine : Machine} {events : List MachineEvent}
    (roomy : EveryStep Machine.step Machine.Roomy machine events) :
    EveryStep Machine.step Machine.Spares machine events := by
  refine roomy.mono fun machine event free => ?_
  cases event with
  | interrupt => trivial
  | instruction now =>
    refine ⟨fun _ full => absurd full free.1, fun raw after read _ _ _ full => ?_⟩
    exact absurd full (free.2 _ read)

/-- The program loads what it has stored, on both machines. -/
theorem machine_refinesFlat_store :
    ∃ kernel machine memory flat, storeLaunch = some kernel ∧
      replay Machine.step (Machine.initRegisters ⟨fun _ => 0, kernel⟩ kernel.pageTableSize)
        storeEvents = some machine ∧
      replay (FlatMachine.step kernel.pageTableSize) (.start kernel.pageTableSize memory)
        storeEvents = some flat ∧
      machine.settle.registers 7 = 7 ∧ flat.registers 7 = 7 := by
  -- The launch and the conditions on the run are evaluated.
  obtain ⟨kernel, launched, live, hazardFree, roomy⟩ : ∃ kernel, storeLaunch = some kernel ∧
      (kernel.getAddrSpaceOfThread 0).isSome ∧
      EveryStep Machine.step Machine.HazardFree
        (Machine.initRegisters ⟨fun _ => 0, kernel⟩ kernel.pageTableSize) storeEvents ∧
      EveryStep Machine.step Machine.Roomy
        (Machine.initRegisters ⟨fun _ => 0, kernel⟩ kernel.pageTableSize) storeEvents :=
    ⟨_, rfl, by decide +kernel, by decide +kernel, by decide +kernel⟩
  -- So is what the machine loads in the end.
  have loaded : (storeLaunch.bind fun kernel =>
      (replay Machine.step (Machine.initRegisters ⟨fun _ => 0, kernel⟩ kernel.pageTableSize)
        storeEvents).map fun machine => machine.settle.registers 7) = some 7 := by decide +kernel
  rw [launched, Option.bind_some] at loaded
  obtain ⟨machine, ran, seven⟩ := Option.map_eq_some_iff.mp loaded
  obtain ⟨contents, memory, -, -, related⟩ := machine_refinesFlat _ _ _ _ 0 1 2 [1] [] _ kernel
    (by decide) (by decide +kernel) launched live (fun _ => 0) storeEvents hazardFree
    (Machine.spares_of_roomy roomy)
  -- What the flat processor loads follows from the theorem.
  rw [ran] at related
  generalize went : replay (FlatMachine.step _) _ _ = result at related
  cases related with
  | some alike => exact ⟨kernel, machine, memory, _, launched, ran, went, seven,
      (alike.1 7 (by decide)).symm.trans seven⟩

end Nachos
