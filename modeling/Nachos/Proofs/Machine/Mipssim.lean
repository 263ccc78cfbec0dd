import Mathlib.Data.List.Forall2
import Nachos.Proofs.Machine.Effect
import Nachos.Theory.Run

/-! Programs that keep out of the load-delay slot cannot tell that there is one. -/

namespace Nachos

namespace Machine

variable {machine reference : Machine}

@[simp] theorem write_kernel (machine : Machine) (num : Nat) (value : Word) :
    (machine.write num value).kernel = machine.kernel := rfl

@[simp] theorem write_registers (machine : Machine) (num : Nat) (value : Word) (x : Nat) :
    (machine.write num value).registers x = if x = num then value else machine.registers x := by
  simp [write, Function.update_apply]

/-- What is in each register after a delayed load. -/
theorem delayedLoad_registers (machine : Machine) (nextReg : Nat) (nextValue : Word) (x : Nat) :
    (machine.delayedLoad nextReg nextValue).registers x =
      if x = 0 then 0
      else if x = loadValueReg then nextValue
      else if x = loadReg then BitVec.ofNat 32 nextReg
      else if x = (machine.registers loadReg).toNat then machine.registers loadValueReg
      else machine.registers x := by
  simp only [delayedLoad, write_registers]

@[simp] theorem delayedLoad_kernel (machine : Machine) (nextReg : Nat) (nextValue : Word) :
    (machine.delayedLoad nextReg nextValue).kernel = machine.kernel := rfl

/-- A load of the register is pending. Loads of register 0 have no effect. -/
abbrev Pending (machine : Machine) (x : Nat) : Prop :=
  x ≠ 0 ∧ (machine.registers loadReg).toNat = x

/--
The end of an instruction on the reference machine, which writes a loaded value at once.

No load is ever pending on it.
-/
def loadAtOnce (machine : Machine) (reg : Nat) (value : Word) : Machine :=
  (machine.write reg value).write 0 0

/-- One instruction on the reference machine. -/
def referenceInstruction (machine : Machine) (now : Int) : Option Machine := do
  match ← machine.fetchExecute now with
  | .finished machine pcAfter nextLoadReg nextLoadValue =>
    return (machine.loadAtOnce nextLoadReg nextLoadValue).advance pcAfter
  | .trapped which machine => machine.exceptionHandler now which

/-- One event on the reference machine, which has nothing to finish before an interrupt. -/
def referenceStep (machine : Machine) : MachineEvent → Option Machine
  | .instruction now => machine.referenceInstruction now
  | .interrupt => some machine

/--
The reference machine is ahead by the load that is pending, and otherwise the same.

Inside an instruction register 0 may hold something, on both machines alike.
-/
structure Lags (machine reference : Machine) : Prop where
  kernel : reference.kernel = machine.kernel
  target : (machine.registers loadReg).toNat < numGPRegs
  idle : reference.registers loadReg = 0 ∧ reference.registers loadValueReg = 0
  same : ∀ x, x ≠ loadReg → x ≠ loadValueReg → ¬ machine.Pending x →
    reference.registers x = machine.registers x
  loaded : ∀ x, machine.Pending x → reference.registers x = machine.registers loadValueReg

/-- No load is pending, and register 0 holds 0. -/
structure Idle (machine : Machine) : Prop where
  load : machine.registers loadReg = 0
  loadValue : machine.registers loadValueReg = 0
  zero : machine.registers 0 = 0

/-- No register at all has a load pending then. -/
theorem Idle.not_pending (idle : machine.Idle) (x : Nat) : ¬ machine.Pending x := fun pending =>
  pending.1 (pending.2.symm.trans (by rw [idle.load]; rfl))

/-- Once a load has been carried out, and no other one begun, no load is pending. -/
theorem idle_delayedLoad (machine : Machine) : (machine.delayedLoad 0 0).Idle := by
  refine ⟨?_, ?_, ?_⟩
  all_goals
    rw [delayedLoad_registers]
    rfl

/-- A machine on which no load is pending is its own reference. -/
theorem Lags.self (idle : machine.Idle) : machine.Lags machine :=
  ⟨rfl, by rw [idle.load]; decide, ⟨idle.load, idle.loadValue⟩, fun _ _ _ _ => rfl,
    fun x pending => absurd pending (idle.not_pending x)⟩

namespace Lags

/-- Registers that are not general ones are the same on both machines. -/
theorem special (lags : machine.Lags reference) {x : Nat} (large : numGPRegs ≤ x)
    (notLoad : x ≠ loadReg) (notValue : x ≠ loadValueReg) :
    reference.registers x = machine.registers x := by
  refine lags.same x notLoad notValue ?_
  rintro ⟨-, pending⟩
  exact absurd (pending ▸ lags.target) (Nat.not_lt.mpr large)

/-- A general register without a pending load is the same on both machines. -/
theorem general (lags : machine.Lags reference) {x : Nat} (small : x < numGPRegs)
    (clear : ¬ machine.Pending x) : reference.registers x = machine.registers x := by
  have notLoad : x ≠ loadReg := by
    rintro rfl
    exact absurd small (by decide)
  have notValue : x ≠ loadValueReg := by
    rintro rfl
    exact absurd small (by decide)
  exact lags.same x notLoad notValue clear

/-- Writing a register that no load is pending for is the same on both machines. -/
theorem write (lags : machine.Lags reference) {d : Nat} (notLoad : d ≠ loadReg)
    (notValue : d ≠ loadValueReg) (clear : ¬ machine.Pending d) (value : Word) :
    (machine.write d value).Lags (reference.write d value) := by
  -- The two registers of the pending load are not the one that is written.
  have kept : (machine.write d value).registers loadReg = machine.registers loadReg := by
    simp [notLoad.symm]
  have keptValue : (machine.write d value).registers loadValueReg =
      machine.registers loadValueReg := by
    simp [notValue.symm]
  refine ⟨lags.kernel, kept ▸ lags.target, ?_, ?_, ?_⟩
  · -- Nothing is pending on the reference machine, as before.
    simp [notLoad.symm, notValue.symm, lags.idle]
  · -- A register that is written is the same on both, and the others were.
    intro x xLoad xValue xClear
    rw [Pending, kept] at xClear
    simp only [write_registers]
    split
    · rfl
    · exact lags.same x xLoad xValue xClear
  · -- What is pending is another register, so its value is still to come.
    intro x pending
    rw [Pending, kept] at pending
    have different : x ≠ d := fun same => clear (same ▸ pending)
    rw [keptValue, write_registers, if_neg different]
    exact lags.loaded x pending

/-- Writing a register that is not a general one is the same on both machines. -/
theorem writeSpecial (lags : machine.Lags reference) {d : Nat} (large : numGPRegs ≤ d)
    (notLoad : d ≠ loadReg) (notValue : d ≠ loadValueReg) (value : Word) :
    (machine.write d value).Lags (reference.write d value) := by
  refine lags.write notLoad notValue ?_ value
  rintro ⟨-, pending⟩
  exact absurd (pending ▸ lags.target) (Nat.not_lt.mpr large)

/-- Once the pending load has been carried out, the two machines are equal. -/
theorem settled (lags : machine.Lags reference) :
    reference.delayedLoad 0 0 = machine.delayedLoad 0 0 := by
  -- Register by register: 0 and the two of the load are cleared on both.
  have registers : (reference.delayedLoad 0 0).registers = (machine.delayedLoad 0 0).registers := by
    funext x
    rw [delayedLoad_registers, delayedLoad_registers, lags.idle.1]
    by_cases zero : x = 0
    · rw [if_pos zero, if_pos zero]
    by_cases value : x = loadValueReg
    · rw [if_neg zero, if_neg zero, if_pos value, if_pos value]
    by_cases load : x = loadReg
    · simp only [if_neg zero, if_neg value, if_pos load]
    have nothing : x ≠ (0 : Word).toNat := zero
    simp only [if_neg zero, if_neg value, if_neg load, if_neg nothing]
    -- The target receives its value here, and had it there.
    by_cases target : x = (machine.registers loadReg).toNat
    · rw [if_pos target, lags.loaded x ⟨zero, target.symm⟩]
    · rw [if_neg target, lags.same x load value fun pending => target pending.2.symm]
  -- A load does not touch the kernel.
  have kernel : (reference.delayedLoad 0 0).kernel = (machine.delayedLoad 0 0).kernel := lags.kernel
  cases first : reference.delayedLoad 0 0
  cases second : machine.delayedLoad 0 0
  rw [first, second] at registers kernel
  cases registers
  cases kernel
  rfl

/-- A load that goes on pending here is written at once there. -/
theorem delayedLoad (lags : machine.Lags reference) {nextReg : Nat} {value other : Word}
    (small : nextReg < numGPRegs) (same : nextReg ≠ 0 → other = value) :
    (machine.delayedLoad nextReg value).Lags (reference.loadAtOnce nextReg other) := by
  -- The register that is pending now is the next target.
  have target : ((machine.delayedLoad nextReg value).registers loadReg).toNat = nextReg := by
    rw [delayedLoad_registers, if_neg (by decide), if_neg (by decide), if_pos rfl]
    exact Nat.mod_eq_of_lt (Nat.lt_trans small (by decide))
  -- That is a general register, so it is none of the two of the load.
  have notLoad : loadReg ≠ nextReg := by
    rintro rfl
    exact absurd small (by decide)
  have notValue : loadValueReg ≠ nextReg := by
    rintro rfl
    exact absurd small (by decide)
  refine ⟨lags.kernel, by rwa [target], ?_, ?_, ?_⟩
  · -- The reference machine keeps nothing pending.
    simp [loadAtOnce, notLoad, notValue, lags.idle]
  · -- The other registers are the same on both.
    intro x xLoad xValue xClear
    rw [Pending, target] at xClear
    rw [delayedLoad_registers, loadAtOnce, write_registers, write_registers]
    by_cases zero : x = 0
    · rw [if_pos zero, if_pos zero]
    have different : x ≠ nextReg := fun same => xClear ⟨zero, same.symm⟩
    simp only [if_neg zero, if_neg xLoad, if_neg xValue, if_neg different]
    -- The load that was pending before is carried out on the slower machine.
    by_cases before : x = (machine.registers loadReg).toNat
    · rw [if_pos before, lags.loaded x ⟨zero, before.symm⟩]
    · rw [if_neg before, lags.same x xLoad xValue fun pending => before pending.2.symm]
  · -- The next target has its value there already.
    intro x pending
    rw [Pending, target] at pending
    obtain ⟨zero, rfl⟩ := pending
    rw [delayedLoad_registers, loadAtOnce, write_registers, write_registers, if_neg zero,
      if_pos rfl, if_neg (by decide), if_pos rfl]
    exact same zero

/-- Both machines advance their program counters alike. -/
theorem advance (lags : machine.Lags reference) (pcAfter : Word) :
    (machine.advance pcAfter).Lags (reference.advance pcAfter) := by
  have pc := lags.special (x := pcReg) (by decide) (by decide) (by decide)
  have nextPC := lags.special (x := nextPCReg) (by decide) (by decide) (by decide)
  unfold Machine.advance
  simp only [write_registers, pc, nextPC]
  refine writeSpecial ?_ (by decide) (by decide) (by decide) _
  refine writeSpecial ?_ (by decide) (by decide) (by decide) _
  exact lags.writeSpecial (by decide) (by decide) (by decide) _

/-- Changing the memory of both machines alike keeps them together. -/
theorem withKernel (lags : machine.Lags reference) (kernel : VmKernel) :
    Lags { machine with kernel } { reference with kernel } :=
  ⟨rfl, lags.target, lags.idle, lags.same, lags.loaded⟩

/-- An exception leaves the two machines equal. -/
theorem raiseException (lags : machine.Lags reference) (badVAddr : Word) :
    reference.raiseException badVAddr = machine.raiseException badVAddr :=
  (lags.writeSpecial (by decide) (by decide) (by decide) badVAddr).settled

/-- What a load that merges finds is the same on both machines, forwarded or not. -/
theorem merged (lags : machine.Lags reference) {rt : Nat} (small : rt < numGPRegs)
    (notZero : rt ≠ 0) : reference.merged rt = machine.merged rt := by
  have idle : (reference.registers loadReg).toNat ≠ rt := by
    rw [lags.idle.1]
    exact notZero.symm
  unfold Machine.merged
  rw [if_neg idle]
  split
  · rename_i pending
    exact lags.loaded rt ⟨notZero, pending⟩
  · rename_i clear
    exact lags.general small fun pending => clear pending.2

end Lags

/-- After an exception no load is pending. -/
theorem idle_raiseException (machine : Machine) (badVAddr : Word) :
    (machine.raiseException badVAddr).Idle :=
  idle_delayedLoad _

/-- The system call that adds changes its result and the program counters. -/
theorem sysAdd_registers (machine : Machine) {x : Nat} (result : x ≠ 2) (prevPC : x ≠ prevPCReg)
    (pc : x ≠ pcReg) (nextPC : x ≠ nextPCReg) :
    machine.sysAdd.registers x = machine.registers x := by
  simp only [sysAdd, write_registers, if_neg result, if_neg prevPC, if_neg pc, if_neg nextPC]

/-- An exception handler that returns leaves no load pending. -/
theorem Idle.exceptionHandler (idle : machine.Idle) {now : Int} {which : MachineException}
    {after : Machine} (served : machine.exceptionHandler now which = some after) : after.Idle := by
  unfold Machine.exceptionHandler at served
  split at served
  · -- The system call that adds writes its result and the program counters.
    split at served
    · cases served
      refine ⟨.trans ?_ idle.load, .trans ?_ idle.loadValue, .trans ?_ idle.zero⟩
      all_goals exact sysAdd_registers _ (by decide) (by decide) (by decide) (by decide)
    · cases served
  · -- A page fault is served without touching the registers.
    obtain ⟨kernel, -, made⟩ := Option.bind_eq_some_iff.mp served
    cases made
    exact ⟨idle.load, idle.loadValue, idle.zero⟩
  · cases served

/-- Two ends of the switch, on a machine and on its reference. -/
inductive Ahead : Executed → Executed → Prop
  | finished {machine reference : Machine} {pcAfter : Word} {nextLoadReg : Nat}
    {value other : Word} (lags : machine.Lags reference) (small : nextLoadReg < numGPRegs)
    (same : nextLoadReg ≠ 0 → other = value) :
    Ahead (.finished machine pcAfter nextLoadReg value)
      (.finished reference pcAfter nextLoadReg other)
  | trapped (which : MachineException) {machine : Machine}
    (idle : machine.Idle) : Ahead (.trapped which machine) (.trapped which machine)

/-- What an access to memory answers on a machine, which had this one before, and its reference. -/
inductive Accessed {α : Type} (before : Machine) :
    Except MachineException α × Machine → Except MachineException α × Machine → Prop
  | ok (value : α) {machine reference : Machine} (lags : machine.Lags reference)
    (clear : ∀ x, machine.Pending x → before.Pending x) :
    Accessed before (.ok value, machine) (.ok value, reference)
  | error (which : MachineException) {machine : Machine}
    (idle : machine.Idle) : Accessed before (.error which, machine) (.error which, machine)

/-- A page fault on both machines leaves them equal, and with nothing pending. -/
theorem Lags.pageFault (lags : machine.Lags reference) (addr : Word) (now : Int) :
    Option.Rel (fun first second => second = first ∧ first.Idle)
      ((machine.raiseException addr).exceptionHandler now (.memoryException .pageFaultException))
      ((reference.raiseException addr).exceptionHandler now
        (.memoryException .pageFaultException)) := by
  have idle := idle_raiseException machine addr
  rw [lags.raiseException addr]
  cases served : (machine.raiseException addr).exceptionHandler now
      (.memoryException .pageFaultException) with
  | none => exact .none
  | some after =>
    exact .some ⟨rfl, idle.exceptionHandler served⟩

/-- Finding an address is the same on both machines, whether or not there is a page fault. -/
theorem Lags.locate (lags : machine.Lags reference) (now : Int) (addr : Word) (size : Nat)
    (writing : Bool) : Option.Rel (Accessed machine) (machine.locate now addr size writing)
      (reference.locate now addr size writing) := by
  unfold Machine.locate
  rw [lags.kernel]
  -- The translation is the same, since the kernels are.
  cases machine.kernel.translate addr size writing with
  | none => exact .none
  | some answer =>
    obtain ⟨found, kernel⟩ := answer
    have moved := lags.withKernel kernel
    simp only [Option.bind_eq_bind, Option.bind_some]
    -- The address is found at once.
    split
    · exact .some (.ok _ moved fun _ pending => pending)
    · -- The handler finds both machines in the same state, and so does what follows it.
      refine rel_bind (moved.pageFault addr now) ?_
      rintro first second ⟨rfl, idle⟩
      cases second.kernel.translate addr size writing with
      | none => exact .none
      -- After the page fault the translation is tried once more.
      | some again =>
        obtain ⟨found, kernel⟩ := again
        simp only [Option.bind_some]
        split
        · exact .some (.ok _ ((Lags.self idle).withKernel kernel) fun x pending =>
            absurd pending (idle.not_pending x))
        · exact .none
    · -- Any other exception is for the caller to report.
      rw [moved.raiseException addr]
      exact .some (.error _ (idle_raiseException _ addr))

section Access

variable {now : Int} {addr : Word} {size : Nat}

/-- Reading memory is the same on both machines. -/
theorem Lags.readMem (lags : machine.Lags reference) :
    Option.Rel (Accessed machine) (machine.readMem now addr size)
      (reference.readMem now addr size) := by
  unfold Machine.readMem
  refine rel_bind (lags.locate now addr size false) ?_
  intro first second accessed
  cases accessed with
  | ok physicalAddress moved clear =>
    simp only [moved.kernel]
    cases VmKernel.valueOf _ with
    | none => exact .none
    | some value => exact .some (.ok _ moved clear)
  | error which idle => exact .some (.error which idle)

/-- What is done with a value that is read may depend on the two machines as they are then. -/
theorem Lags.reading (lags : machine.Lags reference)
    {rest other : Word → Machine → Option Executed}
    (next : ∀ value after ahead, machine.readMem now addr size = some (.ok value, after) →
      after.Lags ahead → (∀ x, after.Pending x → machine.Pending x) →
      Option.Rel Ahead (rest value after) (other value ahead)) :
    Option.Rel Ahead (machine.reading now addr size rest)
      (reference.reading now addr size other) := by
  have related : Option.Rel (Accessed machine) (machine.readMem now addr size)
      (reference.readMem now addr size) := lags.readMem
  unfold Machine.reading
  -- If the one gets no further, nor does the other.
  cases first : machine.readMem now addr size with
  | none =>
    rw [first] at related
    generalize reference.readMem now addr size = second at related
    cases related
    exact .none
  | some answer =>
    rw [first] at related
    generalize reference.readMem now addr size = second at related
    cases related with
    | some accessed =>
      -- Both go on with the value, or both are trapped.
      cases accessed with
      | ok value moved clear => exact next value _ _ first moved clear
      | error which idle => exact .some (.trapped which idle)

/-- Writing memory is the same on both machines. -/
theorem Lags.writing (lags : machine.Lags reference) (value pcAfter : Word) :
    Option.Rel Ahead (machine.writing now addr size value pcAfter)
      (reference.writing now addr size value pcAfter) := by
  unfold Machine.writing Machine.writeMem
  simp only [Option.bind_eq_bind, Option.bind_assoc]
  refine rel_bind (lags.locate now addr size true) ?_
  intro first second accessed
  cases accessed with
  | ok physicalAddress moved clear =>
    simp only [moved.kernel]
    exact .some (.finished (moved.withKernel _) (by decide) fun _ => rfl)
  | error which idle => exact .some (.trapped which idle)

end Access

namespace Lags

/-- An instruction that loads nothing is done on both machines alike. -/
theorem done (lags : machine.Lags reference) (pcAfter : Word) :
    Option.Rel Ahead (machine.done pcAfter) (reference.done pcAfter) :=
  .some (.finished lags (by decide) fun _ => rfl)

/-- An instruction that raises an exception does so on both machines. -/
theorem trap (lags : machine.Lags reference) (which : MachineException) (badVAddr : Word) :
    Option.Rel Ahead (machine.trap which badVAddr) (reference.trap which badVAddr) := by
  unfold Machine.trap
  rw [lags.raiseException badVAddr]
  exact .some (.trapped which (idle_raiseException machine badVAddr))

/-- A load is left pending on one machine, with the value that the other one writes. -/
theorem loading (lags : machine.Lags reference) (pcAfter : Word) {rt : Nat}
    (small : rt < numGPRegs) {value other : Word} (same : rt ≠ 0 → other = value) :
    Option.Rel Ahead (machine.loading pcAfter rt value) (reference.loading pcAfter rt other) :=
  .some (.finished lags small same)

end Lags

/-- The registers that an effect writes are written alike on both machines. -/
theorem Lags.writes {writes : List (Nat × Word)}
    (apart : ∀ write ∈ writes, write.1 ≠ loadReg ∧ write.1 ≠ loadValueReg) :
    ∀ {machine reference : Machine}, machine.Lags reference →
      (∀ write ∈ writes, ¬ machine.Pending write.1) →
      (writes.foldl (fun machine write => machine.write write.1 write.2) machine).Lags
        (writes.foldl (fun machine write => machine.write write.1 write.2) reference) := by
  -- By induction on the writes, each of which is to a register without a load.
  induction writes with
  | nil => exact fun lags _ => lags
  | cons write rest ih =>
    intro machine reference lags clear
    have here := apart write List.mem_cons_self
    refine ih (fun other member => apart other (List.mem_cons_of_mem _ member))
      (lags.write here.1 here.2 (clear write List.mem_cons_self) _) fun other member pending => ?_
    -- What was written is not the register that says what is pending.
    rw [Pending, write_registers, if_neg here.1.symm] at pending
    exact clear other (List.mem_cons_of_mem _ member) pending

/-- An effect that keeps out of the load-delay slot is the same on both machines. -/
theorem Lags.perform (lags : machine.Lags reference) (now : Int) {instr : Instruction}
    (small : instr.rs < numGPRegs ∧ instr.rt < numGPRegs ∧ instr.rd < numGPRegs)
    (clear : ∀ x ∈ instr.touches, ¬ machine.Pending x) {effect : Effect}
    (keeps : effect.Keeps instr) :
    Option.Rel Ahead (effect.perform machine now) (effect.perform reference now) := by
  -- The cases are those of an effect.
  cases effect with
  | stuck => exact .none
  | raise which badVAddr => exact lags.trap which badVAddr
  | compute writes pcAfter =>
    -- No load is pending for a special register.
    have special : ∀ x, numGPRegs ≤ x → ¬ machine.Pending x := by
      rintro x large ⟨-, pending⟩
      exact absurd (pending ▸ lags.target) (Nat.not_lt.mpr large)
    refine (Lags.writes (fun write member => ?_) lags fun write member => ?_).done pcAfter
    · -- The registers written are not those of the load.
      rcases keeps write member with touched | high | low
      · have general := instr.touches_small small touched
        exact ⟨Nat.ne_of_lt (Nat.lt_trans general (by decide)),
          Nat.ne_of_lt (Nat.lt_trans general (by decide))⟩
      · rw [high]
        decide
      · rw [low]
        decide
    · -- None of them is pending either.
      rcases keeps write member with touched | high | low
      · exact clear _ touched
      · exact special _ (high ▸ by decide)
      · exact special _ (low ▸ by decide)
  | load addr size rt pcAfter value =>
    -- A load that is pending for the target is forwarded on the one machine alone.
    have smallRt : rt < numGPRegs := keeps.1 ▸ small.2.1
    refine lags.reading fun _ _ _ _ moved _ => moved.loading _ smallRt fun notZero => ?_
    rw [moved.merged smallRt notZero]
  -- A store finds the same value on both.
  | store addr size value pcAfter => exact lags.writing _ _
  | merge addr rt pcAfter value =>
    refine lags.reading fun _ after ahead _ moved fewer => ?_
    -- A page fault can only have made fewer loads pending.
    rw [moved.general (keeps.1 ▸ small.2.1) fun pending => clear rt keeps.2 (fewer rt pending)]
    exact moved.writing _ _

/-- An instruction that keeps out of the load-delay slot does the same on both machines. -/
theorem Lags.execute (lags : machine.Lags reference) (now : Int) (instr : Instruction)
    (small : instr.rs < numGPRegs ∧ instr.rt < numGPRegs ∧ instr.rd < numGPRegs)
    (clear : ∀ x ∈ instr.touches, ¬ machine.Pending x) :
    Option.Rel Ahead (machine.execute now instr) (reference.execute now instr) := by
  have same : instr.effect reference.registers = instr.effect machine.registers :=
    instr.effect_congr
      (fun x touched => lags.general (instr.touches_small small touched) (clear x touched))
      (lags.special (by decide) (by decide) (by decide))
      (lags.special (by decide) (by decide) (by decide))
      (lags.special (by decide) (by decide) (by decide))
  rw [execute_eq, execute_eq, same]
  exact lags.perform now small clear (instr.effect_keeps _)

/-- Between instructions: the reference machine is ahead, and register 0 holds 0. -/
structure Follows (machine reference : Machine) : Prop where
  lags : machine.Lags reference
  zero : machine.registers 0 = 0

/-- A machine as it can be between two instructions. -/
structure WellFormed (machine : Machine) : Prop where
  zero : machine.registers 0 = 0
  target : (machine.registers loadReg).toNat < numGPRegs

/-- A program starts on a machine that is well formed. -/
theorem wellFormed_initRegisters (machine : Machine) (numPages : Nat) :
    (machine.initRegisters numPages).WellFormed := by
  refine ⟨by simp [initRegisters], ?_⟩
  have zero : (machine.initRegisters numPages).registers loadReg = 0 := by
    simp only [initRegisters, write_registers, if_neg (show loadReg ≠ stackReg by decide),
      if_neg (show loadReg ≠ nextPCReg by decide), if_neg (show loadReg ≠ pcReg by decide)]
  rw [zero]
  decide

/-- The machine with its pending load applied: what a program can see of it. -/
def settle (machine : Machine) : Machine := machine.delayedLoad 0 0

/-- The state with the pending load applied is a reference to start with. -/
theorem WellFormed.follows (wellFormed : machine.WellFormed) : machine.Follows machine.settle := by
  refine ⟨⟨rfl, wellFormed.target, ?_, ?_, ?_⟩, wellFormed.zero⟩
  · -- Settling leaves nothing pending.
    simp only [settle, delayedLoad_registers]
    exact ⟨rfl, rfl⟩
  -- Settling changes the register that the load is for, and no other.
  · intro x notLoad notValue clear
    rw [settle, delayedLoad_registers]
    by_cases zero : x = 0
    · rw [if_pos zero, zero, wellFormed.zero]
    · have notTarget : x ≠ (machine.registers loadReg).toNat := fun same => clear ⟨zero, same.symm⟩
      rw [if_neg zero, if_neg notValue, if_neg notLoad, if_neg notTarget]
  · -- The register of the load has got its value.
    intro x pending
    have small : x < numGPRegs := pending.2 ▸ wellFormed.target
    have notLoad : x ≠ loadReg := Nat.ne_of_lt (Nat.lt_trans small (by decide))
    have notValue : x ≠ loadValueReg := Nat.ne_of_lt (Nat.lt_trans small (by decide))
    rw [settle, delayedLoad_registers, if_neg pending.1, if_neg notValue, if_neg notLoad,
      if_pos pending.2.symm]

/-- A machine that has no load pending is as it is with its pending load applied. -/
theorem Idle.settle_eq (idle : machine.Idle) : machine.settle = machine := by
  -- Compared register by register, the two are the same.
  have registers : machine.settle.registers = machine.registers := by
    funext x
    rw [settle, delayedLoad_registers, idle.load, idle.loadValue]
    -- Register 0 and the two of the load are as they are set, and the rest is kept.
    by_cases zero : x = 0
    · rw [if_pos zero, zero, idle.zero]
    by_cases value : x = loadValueReg
    · rw [if_neg zero, if_pos value, value, idle.loadValue]
    by_cases load : x = loadReg
    · rw [if_neg zero, if_neg value, if_pos load, load, idle.load]
      rfl
    · have nothing : x ≠ (0 : Word).toNat := zero
      rw [if_neg zero, if_neg value, if_neg load, if_neg nothing]
  -- The kernel is the same as well.
  have kernel : machine.settle.kernel = machine.kernel := rfl
  cases machine
  cases first : settle _
  rw [first] at registers kernel
  cases registers
  cases kernel
  rfl

/-- The reference is determined: it is the machine with its pending load applied. -/
theorem Follows.eq_settle (follows : machine.Follows reference) : reference = machine.settle := by
  have notPending : ¬ machine.Pending 0 := fun pending => pending.1 rfl
  have zero := (follows.lags.general (by decide) notPending).trans follows.zero
  have idle : reference.Idle := ⟨follows.lags.idle.1, follows.lags.idle.2, zero⟩
  rw [← idle.settle_eq]
  exact follows.lags.settled

/--
The instruction that is fetched does not touch the register of the load that is pending.

A load that has been carried out already, because of an interrupt, is no hazard any more.
-/
def KeepsOut (machine : Machine) : Option (Except MachineException Word × Machine) → Prop
  | some (.ok raw, _) => ∀ x ∈ (Instruction.decode raw).touches, ¬ machine.Pending x
  | some (.error _, _) => True
  | none => True

instance (machine : Machine) : DecidablePred machine.KeepsOut
  | some (.ok raw, _) =>
    inferInstanceAs (Decidable (∀ x ∈ (Instruction.decode raw).touches, ¬ machine.Pending x))
  | some (.error _, _) => isTrue trivial
  | none => isTrue trivial

/-- The event is no instruction that has a hazard. -/
def HazardFree (machine : Machine) : MachineEvent → Prop
  | .instruction now => machine.KeepsOut (machine.readMem now (machine.registers pcReg) 4)
  | .interrupt => True

instance (machine : Machine) : DecidablePred machine.HazardFree
  | .instruction now =>
    inferInstanceAs (Decidable (machine.KeepsOut
      (machine.readMem now (machine.registers pcReg) 4)))
  | .interrupt => isTrue trivial

/-- One event keeps the reference machine ahead by the pending load. -/
theorem Follows.step (follows : machine.Follows reference) {event : MachineEvent}
    (hazardFree : machine.HazardFree event) :
    Option.Rel Follows (machine.step event) (reference.referenceStep event) := by
  cases event with
  | interrupt =>
    -- The load is carried out here, and was written long ago there.
    have idle := idle_delayedLoad machine
    refine .some ⟨?_, idle.zero⟩
    rw [follows.eq_settle]
    exact .self idle
  | instruction now =>
    -- The program counter is a special register, so both fetch from the same place.
    have pc := follows.lags.special (x := pcReg) (by decide) (by decide) (by decide)
    have executed : Option.Rel Ahead (machine.fetchExecute now) (reference.fetchExecute now) := by
      unfold fetchExecute
      rw [pc]
      refine follows.lags.reading fun raw after ahead fetched moved fewer => ?_
      simp only [HazardFree, fetched, KeepsOut] at hazardFree
      exact moved.execute now _ (Instruction.decode_small raw) fun x touched pending =>
        hazardFree x touched (fewer x pending)
    -- Then the load that was pending is carried out.
    refine rel_bind executed ?_
    intro first second ahead
    cases ahead with
    -- The instruction has ended, and the program counters go on.
    | finished lags small same =>
      exact .some ⟨(lags.delayedLoad small same).advance _, by
        simp [Machine.advance, delayedLoad_registers]⟩
    | @trapped which trapped idle =>
      -- The handler is called in the same state, and leaves nothing pending.
      change Option.Rel Follows (trapped.exceptionHandler now which)
        (trapped.exceptionHandler now which)
      cases served : trapped.exceptionHandler now which with
      | none => exact .none
      | some after =>
        have idle := idle.exceptionHandler served
        exact .some ⟨.self idle, idle.zero⟩

end Machine

/--
The load-delay slot cannot be seen by a program that keeps out of it.

However long the run is and wherever it is interrupted, the machine with its pending load applied
is the reference machine, in all its registers and all of its memory.
-/
theorem loadDelay_invisible (machine : Machine) (wellFormed : machine.WellFormed)
    (events : List MachineEvent)
    (hazardFree : EveryStep Machine.step Machine.HazardFree machine events) :
    (replay Machine.step machine events).map Machine.settle =
      replay Machine.referenceStep machine.settle events := by
  -- The machine follows the reference through every step that is free of hazards.
  have related := replay_related (fun state twin event other follows same safe => by
    subst same
    exact Machine.Follows.step follows safe) (List.forall₂_same.mpr fun event _ => Eq.refl event)
    wellFormed.follows hazardFree
  -- Either both runs stop, or both reach a machine.
  revert related
  generalize replay Machine.step machine events = final
  generalize replay Machine.referenceStep machine.settle events = ahead
  intro related
  cases related with
  | none => rfl
  | some follows => rw [Option.map_some, follows.eq_settle]

/-- A machine that is about to run the code in its one page, which is in memory. -/
def residentMachine (code : List Byte) : Machine where
  registers := fun _ => 0
  kernel := {
    VmKernel.boot (fun _ => none) (fun a => code.getD a 0) (fun _ _ => ⟨0, 0, true, 0, 0⟩)
      (fun _ => ⟨0, 0⟩) 0 with
    pageTable := some 0
    pageTableSize := 1
    virtMemManager := ⟨1, 1, fun _ => some ⟨0, 1, [], fun i => ⟨i, i, true, false, false, false⟩⟩⟩ }

/-- A word is loaded into r5, r6 becomes 7, and r7 becomes their sum. The word is at address 32. -/
def loadAndAdd : List Byte :=
  [0x8c050020, 0x24060007, 0x00a63821, 0, 0, 0, 0, 0, 100].flatMap (leBytes 4)

/-- The sum is the same on both machines, though the load is pending for one instruction of three. -/
theorem loadDelay_invisible_add :
    let machine := (residentMachine loadAndAdd).initRegisters 1
    let events := [.instruction 1, .instruction 2, .interrupt, .instruction 3]
    (replay Machine.step machine events).map Machine.settle =
        replay Machine.referenceStep machine.settle events ∧
      ((replay Machine.step machine events).map fun final => final.registers 7) = some 107 := by
  intro machine events
  have wellFormed : machine.WellFormed := Machine.wellFormed_initRegisters _ 1
  have hazardFree : EveryStep Machine.step Machine.HazardFree machine events := by decide +kernel
  exact ⟨loadDelay_invisible machine wellFormed events hazardFree, by decide +kernel⟩

end Nachos
