import Nachos.Proofs.Machine.Mipssim

/-! The processor stays well formed, and never looks beyond its registers. -/

namespace Nachos

/-- No instruction word is decoded to the operation that the switch has no case for. -/
theorem Instruction.decode_known (value : Word) : (decode value).opCode ≠ .rfe := by
  -- None of the tables has it.
  have special : ∀ opCode ∈ specialTable, opCode ≠ .rfe := by decide
  have regular : ∀ entry ∈ opTable, ∀ opCode, entry.1 = .op opCode → opCode ≠ .rfe := by
    simp [opTable]
  unfold decode
  dsimp only
  split
  · -- Most operations come from the first table.
    rename_i opCode found
    rw [List.getD_eq_getElem?_getD] at found
    -- The field has an entry, or is past the table.
    cases inside : opTable[((value >>> 26) &&& 0x3f).toNat]? with
    | none =>
      rw [inside] at found
      cases found
      decide
    | some entry =>
      rw [inside] at found
      exact regular entry (List.mem_of_getElem? inside) opCode found
  · -- Some come from the second one.
    rw [List.getD_eq_getElem?_getD]
    cases inside : specialTable[(value &&& 0x3f).toNat]? with
    | none => decide
    | some opCode => exact special opCode (List.mem_of_getElem? inside)
  · -- The branches on a condition have a field of their own.
    unfold branchOp
    dsimp only
    repeat' split
    all_goals decide

namespace Machine

variable {garbage : Nat → Word} {machine other : Machine}

/-- The machine with other things in memory where its registers end. -/
def beyond (machine : Machine) (garbage : Nat → Word) : Machine :=
  { machine with
    registers := fun x => if x < numTotalRegs then machine.registers x else garbage x }

/-- What is in a register does not depend on what is beyond them. -/
theorem beyond_registers (machine : Machine) {x : Nat} (inside : x < numTotalRegs) :
    (machine.beyond garbage).registers x = machine.registers x :=
  if_pos inside

/-- Changing a register leaves what is beyond them as it was. -/
theorem beyond_write (machine : Machine) {d : Nat} (inside : d < numTotalRegs) (value : Word) :
    (machine.beyond garbage).write d value = (machine.write d value).beyond garbage := by
  have registers : ((machine.beyond garbage).write d value).registers =
      ((machine.write d value).beyond garbage).registers := by
    funext x
    by_cases same : x = d
    · subst same
      simp [beyond, inside]
    · simp [beyond, same]
  exact congrArg (fun registers => Machine.mk registers machine.kernel) registers

/-- The two machines differ beyond their registers only, and a load is for a general register. -/
structure Beside (garbage : Nat → Word) (machine other : Machine) : Prop where
  eq : other = machine.beyond garbage
  target : (machine.registers loadReg).toNat < numGPRegs

namespace Beside

/-- The registers are the same. -/
theorem registers (beside : Beside garbage machine other) {x : Nat} (inside : x < numTotalRegs) :
    other.registers x = machine.registers x := by
  rw [beside.eq, machine.beyond_registers inside]

/-- Memory is the same. -/
theorem kernel (beside : Beside garbage machine other) : other.kernel = machine.kernel := by
  rw [beside.eq]
  rfl

/-- Changing memory alike keeps the machines beside each other. -/
theorem withKernel (beside : Beside garbage machine other) (kernel : VmKernel) :
    Beside garbage { machine with kernel } { other with kernel } :=
  ⟨by rw [beside.eq]; rfl, beside.target⟩

/-- Writing a register that no target is kept in keeps them beside each other. -/
theorem write (beside : Beside garbage machine other) {d : Nat} (inside : d < numTotalRegs)
    (notLoad : d ≠ loadReg) (value : Word) :
    Beside garbage (machine.write d value) (other.write d value) := by
  refine ⟨by rw [beside.eq, machine.beyond_write inside], ?_⟩
  rw [write_registers, if_neg notLoad.symm]
  exact beside.target

/-- A delayed load is carried out within the registers. -/
theorem delayedLoad (beside : Beside garbage machine other) {nextReg : Nat}
    (small : nextReg < numGPRegs) (value : Word) :
    Beside garbage (machine.delayedLoad nextReg value) (other.delayedLoad nextReg value) := by
  -- The register that a load is pending for is a general one.
  have inside : (machine.registers loadReg).toNat < numTotalRegs :=
    Nat.lt_trans beside.target (by decide)
  constructor
  · rw [beside.eq]
    unfold Machine.delayedLoad
    dsimp only
    -- All four writes are to registers.
    rw [machine.beyond_registers (by decide), machine.beyond_registers (by decide),
      beyond_write _ inside, beyond_write _ (by decide), beyond_write _ (by decide),
      beyond_write _ (by decide)]
  · -- The next target is a general register, too.
    rw [delayedLoad_registers, if_neg (by decide), if_neg (by decide), if_pos rfl]
    rw [BitVec.toNat_ofNat, Nat.mod_eq_of_lt (Nat.lt_trans small (by decide))]
    exact small

/-- Raising an exception carries out the load that is pending. -/
theorem raiseException (beside : Beside garbage machine other) (badVAddr : Word) :
    Beside garbage (machine.raiseException badVAddr) (other.raiseException badVAddr) :=
  (beside.write (by decide) (by decide) badVAddr).delayedLoad (by decide) 0

/-- The system call that adds reads and writes registers only. -/
theorem sysAdd (beside : Beside garbage machine other) :
    Beside garbage machine.sysAdd other.sysAdd := by
  constructor
  · rw [beside.eq]
    unfold Machine.sysAdd
    simp (disch := decide) only [beyond_registers, beyond_write]
  · rw [sysAdd_registers machine (by decide) (by decide) (by decide) (by decide)]
    exact beside.target

/-- The handler of an exception does the same to both. -/
theorem exceptionHandler (beside : Beside garbage machine other) (now : Int)
    (which : MachineException) : Option.Rel (Beside garbage) (machine.exceptionHandler now which)
      (other.exceptionHandler now which) := by
  unfold Machine.exceptionHandler
  split
  · -- The number of a system call is in a register.
    rw [beside.registers (x := 2) (by decide)]
    split
    · exact .some beside.sysAdd
    · exact .none
  · -- So is the address of a page fault.
    rw [beside.registers (x := badVAddrReg) (by decide), beside.kernel]
    dsimp only
    cases machine.kernel.pageFaultHandler now _ with
    | none => exact .none
    | some kernel => exact .some (beside.withKernel kernel)
  · -- Any other exception stops both.
    exact .none

/-- What an access to memory answers on the two machines. -/
inductive Alike {Value : Type} (garbage : Nat → Word) :
    Except MachineException Value × Machine → Except MachineException Value × Machine → Prop
  | ok (value : Value) {machine other : Machine} (beside : Beside garbage machine other) :
    Alike garbage (.ok value, machine) (.ok value, other)
  | error (which : MachineException) {machine other : Machine}
    (beside : Beside garbage machine other) (idle : machine.Idle) :
    Alike garbage (.error which, machine) (.error which, other)

/-- The place of an access is the same. -/
theorem locate (beside : Beside garbage machine other) (now : Int) (addr : Word) (size : Nat)
    (writing : Bool) : Option.Rel (Alike garbage) (machine.locate now addr size writing)
      (other.locate now addr size writing) := by
  unfold Machine.locate
  rw [beside.kernel]
  -- The translation goes by the kernel, which is the same.
  cases machine.kernel.translate addr size writing with
  | none => exact .none
  | some answer =>
    obtain ⟨found, kernel⟩ := answer
    have moved := beside.withKernel kernel
    simp only [Option.bind_eq_bind, Option.bind_some]
    split
    · -- The place is found.
      exact .some (.ok _ moved)
    · -- The page fault finds the two machines beside each other, and so does what follows it.
      refine rel_bind ((moved.raiseException addr).exceptionHandler now _) ?_
      intro first second served
      rw [served.kernel]
      cases first.kernel.translate addr size writing with
      | none => exact .none
      | some again =>
        obtain ⟨found, kernel⟩ := again
        simp only [Option.bind_some]
        -- It is found on both after the fault.
        split
        · exact .some (.ok _ (served.withKernel kernel))
        · exact .none
    · -- The exception is reported by both.
      exact .some (.error _ (moved.raiseException addr) (idle_raiseException _ addr))

/-- What is read is the same. -/
theorem readMem (beside : Beside garbage machine other) (now : Int) (addr : Word) (size : Nat) :
    Option.Rel (Alike garbage) (machine.readMem now addr size) (other.readMem now addr size) := by
  unfold Machine.readMem
  refine rel_bind (beside.locate now addr size false) ?_
  intro first second alike
  cases alike with
  | ok physicalAddress moved =>
    dsimp only
    rw [moved.kernel]
    cases VmKernel.valueOf _ with
    | none => exact .none
    | some value => exact .some (.ok _ moved)
  | error which moved idle => exact .some (.error which moved idle)

/-- How the switch ends on the two machines. -/
inductive AlikeEnd (garbage : Nat → Word) : Executed → Executed → Prop
  | finished {machine other : Machine} (pcAfter : Word) {nextLoadReg : Nat} (value : Word)
    (beside : Beside garbage machine other) (small : nextLoadReg < numGPRegs) :
    AlikeEnd garbage (.finished machine pcAfter nextLoadReg value)
      (.finished other pcAfter nextLoadReg value)
  | trapped (which : MachineException) {machine other : Machine}
    (beside : Beside garbage machine other) (idle : machine.Idle) :
    AlikeEnd garbage (.trapped which machine) (.trapped which other)

/-- What is done with a value that is read is done on both machines. -/
theorem reading (beside : Beside garbage machine other) {now : Int} {addr : Word} {size : Nat}
    {rest rest' : Word → Machine → Option Executed}
    (next : ∀ value first second, Beside garbage first second →
      Option.Rel (AlikeEnd garbage) (rest value first) (rest' value second)) :
    Option.Rel (AlikeEnd garbage) (machine.reading now addr size rest)
      (other.reading now addr size rest') := by
  unfold Machine.reading
  refine rel_bind (beside.readMem now addr size) ?_
  intro first second alike
  cases alike with
  | ok value moved => exact next value _ _ moved
  | error which moved idle => exact .some (.trapped which moved idle)

/-- What is written is written on both machines. -/
theorem writing (beside : Beside garbage machine other) (now : Int) (addr : Word) (size : Nat)
    (value pcAfter : Word) :
    Option.Rel (AlikeEnd garbage) (machine.writing now addr size value pcAfter)
      (other.writing now addr size value pcAfter) := by
  unfold Machine.writing Machine.writeMem
  simp only [Option.bind_eq_bind, Option.bind_assoc]
  refine rel_bind (beside.locate now addr size true) ?_
  intro first second alike
  cases alike with
  | ok physicalAddress moved =>
    simp only [moved.kernel]
    exact .some (.finished pcAfter 0 (moved.withKernel _) (by decide))
  | error which moved idle => exact .some (.trapped which moved idle)

/-- Registers are written one after the other. -/
theorem writes {writes : List (Nat × Word)}
    (inside : ∀ write ∈ writes, write.1 < numTotalRegs ∧ write.1 ≠ loadReg) :
    ∀ {machine other : Machine}, Beside garbage machine other →
      Beside garbage (writes.foldl (fun machine write => machine.write write.1 write.2) machine)
        (writes.foldl (fun machine write => machine.write write.1 write.2) other) := by
  induction writes with
  | nil => exact fun beside => beside
  | cons write rest ih =>
    intro machine other beside
    have here := inside write List.mem_cons_self
    exact ih (fun later member => inside later (List.mem_cons_of_mem write member))
      (beside.write here.1 here.2 write.2)

/-- An effect that writes what its instruction may write is the same on both machines. -/
theorem perform (beside : Beside garbage machine other) (now : Int) {instr : Instruction}
    (small : instr.rs < numGPRegs ∧ instr.rt < numGPRegs ∧ instr.rd < numGPRegs)
    {effect : Effect} (keeps : effect.Keeps instr) :
    Option.Rel (AlikeEnd garbage) (effect.perform machine now) (effect.perform other now) := by
  -- A general register lies within, and is not that of the load.
  have general : ∀ {x : Nat}, x < numGPRegs → x < numTotalRegs ∧ x ≠ loadReg := fun less =>
    ⟨Nat.lt_trans less (by decide), Nat.ne_of_lt (Nat.lt_trans less (by decide))⟩
  -- The cases are those of an effect.
  cases effect with
  | stuck => exact .none
  | raise which badVAddr =>
    exact .some (.trapped which (beside.raiseException badVAddr) (idle_raiseException _ badVAddr))
  -- What is computed goes to general registers, or to the two of a product.
  | compute writes pcAfter =>
    refine .some (.finished pcAfter 0 (Beside.writes (fun write member => ?_) beside) (by decide))
    rcases keeps write member with touched | high | low
    · exact general (instr.touches_small small touched)
    · rw [high]
      decide
    · rw [low]
      decide
  | load addr size rt pcAfter value =>
    have smallRt : rt < numGPRegs := keeps.1 ▸ small.2.1
    refine beside.reading fun word first second moved => ?_
    -- What a merging load finds in its target is the same.
    have same : second.merged rt = first.merged rt := by
      unfold Machine.merged
      rw [moved.registers (x := loadReg) (by decide), moved.registers (general smallRt).1,
        moved.registers (x := loadValueReg) (by decide)]
    rw [same]
    exact .some (.finished pcAfter _ moved smallRt)
  -- A store changes memory in the same way.
  | store addr size value pcAfter => exact beside.writing now addr size value pcAfter
  -- A merging store reads a word first.
  | merge addr rt pcAfter value =>
    refine beside.reading fun word first second moved => ?_
    rw [moved.registers (general (keeps.1 ▸ small.2.1)).1]
    exact moved.writing now addr 4 _ pcAfter

/-- The program counters advance on both machines. -/
theorem advance (beside : Beside garbage machine other) (pcAfter : Word) :
    Beside garbage (machine.advance pcAfter) (other.advance pcAfter) := by
  constructor
  · rw [beside.eq]
    unfold Machine.advance
    simp (disch := decide) only [beyond_registers, beyond_write]
  · have kept : (machine.advance pcAfter).registers loadReg = machine.registers loadReg := by
      unfold Machine.advance
      simp only [write_registers]
      rw [if_neg (by decide), if_neg (by decide), if_neg (by decide)]
    rw [kept]
    exact beside.target

/-- One instruction is the same on both machines, and leaves register 0 as it should be. -/
theorem oneInstruction (beside : Beside garbage machine other) (now : Int) :
    Option.Rel (fun first second => Beside garbage first second ∧ first.registers 0 = 0)
      (machine.oneInstruction now) (other.oneInstruction now) := by
  -- The instruction is fetched and carried out.
  have executed : Option.Rel (AlikeEnd garbage) (machine.fetchExecute now)
      (other.fetchExecute now) := by
    unfold Machine.fetchExecute
    rw [beside.registers (x := pcReg) (by decide)]
    refine beside.reading fun raw first second moved => ?_
    have small := Instruction.decode_small raw
    -- The operands are the same, so the effect is.
    have same : (Instruction.decode raw).effect second.registers =
        (Instruction.decode raw).effect first.registers :=
      Instruction.effect_congr _
        (fun x touched => moved.registers
          (Nat.lt_trans (Instruction.touches_small _ small touched) (by decide)))
        (moved.registers (by decide)) (moved.registers (by decide)) (moved.registers (by decide))
    rw [execute_eq, execute_eq, same]
    exact moved.perform now small (Instruction.effect_keeps _ _)
  -- Then the load that was pending is carried out, or an exception is handled.
  refine rel_bind executed fun first second ended => ?_
  cases ended with
  | finished pcAfter value beside small =>
    -- The delayed load clears register 0, and then the program counters advance.
    exact .some ⟨(beside.delayedLoad small value).advance _, by
      simp [Machine.advance, delayedLoad_registers]⟩
  -- The handler leaves nothing pending, and register 0 as it should be.
  | @trapped which trapped _ beside idle =>
    have handled := beside.exceptionHandler now which
    dsimp only
    cases served : trapped.exceptionHandler now which with
    | none =>
      rw [served] at handled
      generalize Machine.exceptionHandler _ now which = result at handled
      cases handled
      exact .none
    | some after =>
      rw [served] at handled
      generalize Machine.exceptionHandler _ now which = result at handled
      cases handled with
      | some held => exact .some ⟨held, (idle.exceptionHandler served).zero⟩

end Beside

/-- One event, before which memory can have become anything. -/
def stepWith (machine : Machine) (timed : VmKernel × MachineEvent) : Option Machine :=
  { machine with kernel := timed.1 }.step timed.2

/-- Every event does the same to both machines, and leaves register 0 as it should be. -/
theorem Beside.stepWith (beside : Beside garbage machine other)
    (timed : VmKernel × MachineEvent) :
    Option.Rel (fun first second => Beside garbage first second ∧ first.registers 0 = 0)
      (machine.stepWith timed) (other.stepWith timed) := by
  obtain ⟨kernel, event⟩ := timed
  have moved := beside.withKernel kernel
  cases event with
  | instruction now => exact moved.oneInstruction now
  | interrupt => exact .some ⟨moved.delayedLoad (by decide) 0, (idle_delayedLoad _).zero⟩

end Machine

/--
The processor stays well formed.

The run starts from the registers of a program that starts, and memory can become anything before
each event. Wherever the run ends, register 0 holds 0 and the load that is pending is for a general
register. The run is the same whatever is in memory beyond the registers, and leaves that as it is.
No instruction names a register that there is not, or is one that the switch has no case for.
-/
theorem processor_staysWellFormed (machine : Machine) (numPages : Nat) (garbage : Nat → Word)
    (events : List (VmKernel × MachineEvent)) :
    (∀ final, replay Machine.stepWith (machine.initRegisters numPages) events = some final →
      final.registers 0 = 0 ∧ (final.registers loadReg).toNat < numGPRegs) ∧
    replay Machine.stepWith ((machine.initRegisters numPages).beyond garbage) events =
      (replay Machine.stepWith (machine.initRegisters numPages) events).map (·.beyond garbage) ∧
    ∀ raw, (Instruction.decode raw).rs < numTotalRegs ∧ (Instruction.decode raw).rt < numTotalRegs ∧
      (Instruction.decode raw).rd < numTotalRegs ∧ (Instruction.decode raw).opCode ≠ .rfe := by
  have start := Machine.wellFormed_initRegisters machine numPages
  -- The two machines differ beyond the registers only, and stay so in every step.
  have related := replay_related
    (fun first second event other (related : Machine.Beside garbage first second ∧
        first.registers 0 = 0) same (_ : True) => by
      subst same
      exact related.1.stepWith event)
    (List.forall₂_same.mpr fun event _ => Eq.refl event)
    ⟨⟨rfl, start.target⟩, start.zero⟩ (everyStep_of_forall (fun _ _ => trivial) events _)
  -- Register 0 is zero at the end, and the target of a load is a general register.
  refine ⟨fun final ran => ?_, ?_, fun raw => ?_⟩
  · rw [ran] at related
    generalize replay Machine.stepWith _ events = ended at related
    cases related with
    | some held => exact ⟨held.2, held.1.target⟩
  · -- The run goes the same way whatever is beyond.
    revert related
    generalize replay Machine.stepWith (machine.initRegisters numPages) events = ended
    generalize replay Machine.stepWith _ events = ended'
    intro related
    cases related with
    | none => rfl
    | some held => rw [Option.map_some, held.1.eq]
  · -- The fields of an instruction have five bits each.
    obtain ⟨rs, rt, rd⟩ := Instruction.decode_small raw
    exact ⟨Nat.lt_trans rs (by decide), Nat.lt_trans rt (by decide), Nat.lt_trans rd (by decide),
      Instruction.decode_known raw⟩

/-- A load and an interrupt in a program that starts. -/
theorem processor_staysWellFormed_add :
    let start := (residentMachine loadAndAdd).initRegisters 1
    let events := [(start.kernel, MachineEvent.instruction 1), (start.kernel, .interrupt),
      (start.kernel, .instruction 2)]
    ∃ final, replay Machine.stepWith start events = some final ∧ final.registers 0 = 0 ∧
      (final.registers loadReg).toNat < numGPRegs := by
  intro start events
  have ends : (replay Machine.stepWith start events).isSome = true := by decide +kernel
  obtain ⟨final, ran⟩ := Option.isSome_iff_exists.mp ends
  have kept := processor_staysWellFormed (residentMachine loadAndAdd) 1 (fun _ => 0) events
  exact ⟨final, ran, kept.1 final ran⟩

end Nachos
