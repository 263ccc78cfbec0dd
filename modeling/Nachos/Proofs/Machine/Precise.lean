import Nachos.Proofs.Machine.Mipssim
import Nachos.Proofs.Vm.Translate

/-! An instruction that raises an exception has done nothing before. -/

namespace Nachos

namespace VmKernel

variable {kernel after : VmKernel} {virtAddr : Word} {size : Nat} {writing : Bool}

/-- The page of the address is in memory, if the page table in use has it. -/
def InMemory (kernel : VmKernel) (virtAddr : Word) : Prop :=
  ∀ threadId space, kernel.pageTable = some threadId →
    kernel.virtMemManager.virtMemTable threadId = some space →
    virtAddr.toNat / pageSize < kernel.pageTableSize →
    (space.pageTable (virtAddr.toNat / pageSize)).valid = true

/-- A page that is in memory raises no page fault. -/
theorem InMemory.no_fault (inMemory : kernel.InMemory virtAddr) :
    kernel.translate virtAddr size writing ≠ some (.error .pageFaultException, after) := by
  intro faulted
  obtain ⟨-, -, -, threadId, space, pointer, held, below, invalid⟩ := translate_fault faulted
  -- The entry is valid, so the walk would have gone on to its other exceptions.
  rw [inMemory threadId space pointer held below] at invalid
  cases invalid

/-- A translation that finds a place to read from changes the TLB at most. -/
theorem translate_read {physAddr : Int}
    (translated : kernel.translate virtAddr size false = some (.ok physAddr, after)) :
    ∃ tlb, after = { kernel with tlb } := by
  rcases translate_cases translated with ⟨-, -, rfl⟩ | ⟨middle, rfl, walked⟩
  · exact ⟨_, rfl⟩
  rcases walk_cases walked with ⟨_, raised, -⟩ | ⟨threadId, space, -, -, -, -, -, -, rfl⟩
  · cases raised
  · -- Only a walk that is for a write marks the page as dirty.
    exact ⟨_, rfl⟩

end VmKernel

/-- The address that an exception is reported for, if the effect raises one. -/
def Effect.reports : Effect → Word
  | .raise _ badVAddr => badVAddr
  | .load addr _ _ _ _ | .store addr _ _ _ | .merge addr _ _ _ => addr
  | .stuck | .compute _ _ => 0

namespace Machine

variable {machine after : Machine} {now : Int} {addr : Word} {size : Nat}
  {which : MachineException}

/--
An exception was raised and nothing else was done.

Memory is as it was, and so are the page tables. The registers are those that raising the exception
leaves.
-/
structure Precise (machine : Machine) (badVAddr : Word) (after : Machine) : Prop where
  kernel : ∃ tlb, after.kernel = { machine.kernel with tlb }
  registers : after.registers = (machine.raiseException badVAddr).registers

/-- The instruction's code and data are in memory, as far as there is any memory for them. -/
def TouchesMemory (machine : Machine) (now : Int) : Prop :=
  machine.kernel.InMemory (machine.registers pcReg) ∧
    ∀ raw after, machine.readMem now (machine.registers pcReg) 4 = some (.ok raw, after) →
      ∀ addr ∈ ((Instruction.decode raw).effect machine.registers).address,
        machine.kernel.InMemory addr

/-- The address that an exception of the instruction is reported for. -/
def reported (machine : Machine) (now : Int) : Word :=
  match machine.readMem now (machine.registers pcReg) 4 with
  | some (.ok raw, _) => ((Instruction.decode raw).effect machine.registers).reports
  | some (.error _, _) => machine.registers pcReg
  | none => 0

/-- Finding a place in memory raises an exception precisely, or changes no register. -/
theorem locate_precise {writing : Bool} (inMemory : machine.kernel.InMemory addr)
    {answer : Except MachineException Nat}
    (located : machine.locate now addr size writing = some (answer, after)) :
    match answer with
    | .error _ => machine.Precise addr after
    | .ok _ => writing = false → ∃ tlb,
        after = { machine with kernel := { machine.kernel with tlb } } := by
  obtain ⟨⟨found, kernel⟩, translated, located⟩ := Option.bind_eq_some_iff.mp located
  -- The place was found, or there is an exception.
  cases found with
  | ok physAddr =>
    cases located
    rintro rfl
    obtain ⟨tlb, rfl⟩ := VmKernel.translate_read translated
    exact ⟨tlb, rfl⟩
  | error exception =>
    -- The page is in memory, so that any other exception comes from the address itself.
    cases exception with
    | pageFaultException => exact absurd translated inMemory.no_fault
    -- The address was refused, and nothing has changed.
    | readOnlyException | busErrorException | addressErrorException =>
      cases located
      exact ⟨VmKernel.translate_error translated, rfl⟩

/-- Reading raises an exception precisely, or goes on with the same registers and memory. -/
theorem reading_precise (inMemory : machine.kernel.InMemory addr)
    {rest : Word → Machine → Option Executed}
    (trapped : machine.reading now addr size rest = some (.trapped which after)) :
    (machine.Precise addr after ∧ ∃ raised, machine.readMem now addr size =
      some (.error raised, after)) ∨ ∃ value tlb,
      machine.readMem now addr size =
        some (.ok value, { machine with kernel := { machine.kernel with tlb } }) ∧
      rest value { machine with kernel := { machine.kernel with tlb } } =
        some (.trapped which after) := by
  obtain ⟨⟨answer, middle⟩, read, trapped⟩ := Option.bind_eq_some_iff.mp trapped
  have how := read
  obtain ⟨⟨found, reached⟩, located, read⟩ := Option.bind_eq_some_iff.mp read
  have spec := locate_precise inMemory located
  -- The access itself trapped, or what was done with the value.
  cases found with
  -- The access has trapped.
  | error raised =>
    cases read
    cases trapped
    exact .inl ⟨spec, _, how⟩
  -- The value was read, and changed no more than the TLB.
  | ok physicalAddress =>
    obtain ⟨value, -, read⟩ := Option.bind_eq_some_iff.mp read
    cases read
    obtain ⟨tlb, rfl⟩ := spec rfl
    exact .inr ⟨_, tlb, how, trapped⟩

/-- Writing raises an exception precisely. -/
theorem writing_precise (inMemory : machine.kernel.InMemory addr) {value pcAfter : Word}
    (trapped : machine.writing now addr size value pcAfter = some (.trapped which after)) :
    machine.Precise addr after := by
  obtain ⟨⟨answer, middle⟩, written, trapped⟩ := Option.bind_eq_some_iff.mp trapped
  obtain ⟨⟨found, reached⟩, located, written⟩ := Option.bind_eq_some_iff.mp written
  have spec := locate_precise inMemory located
  -- Only the access itself can trap.
  cases found with
  | error raised =>
    cases written
    cases trapped
    exact spec
  | ok physicalAddress =>
    -- A write that finds its place is done.
    cases written
    cases trapped

/-- An effect that raises an exception does so precisely. -/
theorem perform_precise {effect : Effect}
    (inMemory : ∀ addr ∈ effect.address, machine.kernel.InMemory addr)
    (trapped : effect.perform machine now = some (.trapped which after)) :
    machine.Precise effect.reports after := by
  -- The cases are those of an effect.
  cases effect with
  | stuck => cases trapped
  -- The exception is raised by the operation itself.
  | raise exception badVAddr =>
    cases trapped
    exact ⟨⟨_, rfl⟩, rfl⟩
  -- Computing does not trap.
  | compute writes pcAfter => cases trapped
  -- A load traps in its access.
  | load addr size rt pcAfter value =>
    rcases reading_precise (inMemory addr rfl) trapped with ⟨precise, -⟩ | ⟨_, _, _, loaded⟩
    · exact precise
    · -- A load that has read its value leaves it pending.
      cases loaded
  | store addr size value pcAfter => exact writing_precise (inMemory addr rfl) trapped
  -- A merging store traps in its read or in its write.
  | merge addr rt pcAfter value =>
    rcases reading_precise (inMemory addr rfl) trapped with ⟨precise, -⟩ | ⟨_, tlb, _, stored⟩
    · exact precise
    · -- The word was read for the store, and nothing has been written yet.
      have spec : Precise { machine with kernel := { machine.kernel with tlb } } addr after :=
        writing_precise (inMemory addr rfl) stored
      exact ⟨spec.kernel, spec.registers⟩

/-- An instruction that raises an exception does so precisely. -/
theorem fetchExecute_precise (touched : machine.TouchesMemory now)
    (trapped : machine.fetchExecute now = some (.trapped which after)) :
    machine.Precise (machine.reported now) after := by
  rcases reading_precise touched.1 trapped with
    ⟨precise, raised, fetched⟩ | ⟨raw, tlb, fetched, executed⟩
  · -- The instruction could not be fetched.
    unfold reported
    rw [fetched]
    exact precise
  · -- The instruction was fetched, and traps in its effect.
    rw [execute_eq] at executed
    have spec : Precise { machine with kernel := { machine.kernel with tlb } } _ after :=
      perform_precise (touched.2 raw _ fetched) executed
    -- What is reported is the address of the effect.
    unfold reported
    rw [fetched]
    exact ⟨spec.kernel, spec.registers⟩

/-- What raising an exception leaves in each register. -/
theorem raiseException_registers (wellFormed : machine.WellFormed) (badVAddr : Word) (x : Nat) :
    (machine.raiseException badVAddr).registers x =
      if x = badVAddrReg then badVAddr else machine.settle.registers x := by
  -- The register of the address is none of those of the load.
  have notLoad : loadReg ≠ badVAddrReg := by decide
  have notValue : loadValueReg ≠ badVAddrReg := by decide
  unfold raiseException settle
  -- Both carry the load out, and then only one of them writes the address.
  rw [delayedLoad_registers, delayedLoad_registers]
  simp only [write_registers, if_neg notLoad, if_neg notValue]
  by_cases bad : x = badVAddrReg
  · -- The load that is pending is for a general register.
    have notTarget : badVAddrReg ≠ (machine.registers loadReg).toNat := fun same =>
      absurd (same ▸ wellFormed.target) (by decide)
    subst bad
    rw [if_neg (by decide), if_neg notValue.symm, if_neg notLoad.symm, if_neg notTarget,
      if_pos rfl, if_pos rfl]
  · -- Any other register is the same.
    simp only [if_neg bad]

/-- The registers that are not general ones keep what they hold when a load is carried out. -/
theorem settle_special (wellFormed : machine.WellFormed) {x : Nat} (large : numGPRegs ≤ x)
    (notLoad : x ≠ loadReg) (notValue : x ≠ loadValueReg) :
    machine.settle.registers x = machine.registers x := by
  have notZero : x ≠ 0 := by
    rintro rfl
    exact absurd large (by decide)
  have notTarget : x ≠ (machine.registers loadReg).toNat := by
    rintro rfl
    exact absurd wellFormed.target (Nat.not_lt.mpr large)
  rw [settle, delayedLoad_registers, if_neg notZero, if_neg notValue, if_neg notLoad,
    if_neg notTarget]

end Machine

/--
Exceptions are precise.

When an instruction whose code and data are in memory raises an exception, memory is as it was when
the instruction started, and so is everything else behind it but the TLB. All the registers are as
they were, but that the load that was pending has been carried out and the bad address is the one
reported.
-/
theorem exception_isPrecise (machine : Machine) (wellFormed : machine.WellFormed) (now : Int)
    (touched : machine.TouchesMemory now) (which : MachineException) (after : Machine)
    (trapped : machine.fetchExecute now = some (.trapped which after)) :
    after.kernel.mainMemory = machine.kernel.mainMemory ∧
      (∃ tlb, after.kernel = { machine.kernel with tlb }) ∧
      after.registers badVAddrReg = machine.reported now ∧
      (∀ x, x ≠ badVAddrReg → after.registers x = machine.settle.registers x) ∧
      after.registers loadReg = 0 ∧ after.registers loadValueReg = 0 ∧
      after.registers pcReg = machine.registers pcReg ∧
      after.registers nextPCReg = machine.registers nextPCReg ∧
      after.registers prevPCReg = machine.registers prevPCReg := by
  obtain ⟨⟨tlb, same⟩, registers⟩ := Machine.fetchExecute_precise touched trapped
  -- All registers but one are as after the load.
  have others : ∀ x, x ≠ badVAddrReg → after.registers x = machine.settle.registers x := by
    intro x different
    rw [registers, Machine.raiseException_registers wellFormed, if_neg different]
  -- The program counters are not the target of the load.
  have counters : ∀ x, x ≠ badVAddrReg → numGPRegs ≤ x → x ≠ loadReg → x ≠ loadValueReg →
      after.registers x = machine.registers x := fun x different large notLoad notValue =>
    (others x different).trans (Machine.settle_special wellFormed large notLoad notValue)
  have idle := Machine.idle_delayedLoad machine
  refine ⟨by rw [same], ⟨tlb, same⟩, ?_, others, ?_, ?_, ?_, ?_, ?_⟩
  · -- The address is in its register.
    rw [registers, Machine.raiseException_registers wellFormed, if_pos rfl]
  · -- Nothing is pending any more.
    exact (others loadReg (by decide)).trans idle.load
  · exact (others loadValueReg (by decide)).trans idle.loadValue
  -- The other three are program counters.
  all_goals exact counters _ (by decide) (by decide) (by decide) (by decide)

/-- A load from an odd address, while another load is pending for r5. -/
def crookedLoad : Machine :=
  let machine := (residentMachine (leBytes 4 0x8c060021)).initRegisters 1
  (machine.write loadReg 5).write loadValueReg 100

/-- The load that was pending is in r5, and the program counter is still that of the bad load. -/
theorem exception_isPrecise_crooked :
    ∃ after, crookedLoad.fetchExecute 1 =
        some (.trapped (.memoryException .addressErrorException) after) ∧
      after.registers badVAddrReg = 33 ∧ after.registers 5 = 100 ∧ after.registers pcReg = 0 := by
  obtain ⟨after, trapped⟩ : ∃ after, crookedLoad.fetchExecute 1 =
      some (.trapped (.memoryException .addressErrorException) after) := ⟨_, rfl⟩
  -- Register 0 is zero, and no load is pending for a special register.
  have wellFormed : crookedLoad.WellFormed := ⟨by decide +kernel, by decide +kernel⟩
  -- The only page there is, is in memory.
  have inMemory : ∀ addr, crookedLoad.kernel.InMemory addr := by
    intro addr threadId space pointer held _
    cases pointer
    cases held
    rfl
  obtain ⟨-, -, reported, others, -, -, pc, -⟩ := exception_isPrecise crookedLoad wellFormed 1
    ⟨inMemory _, fun _ _ _ addr _ => inMemory addr⟩ _ after trapped
  -- The values are those of this machine.
  refine ⟨after, trapped, reported.trans ?_, (others 5 (by decide)).trans ?_, pc.trans ?_⟩
  all_goals decide +kernel

end Nachos
