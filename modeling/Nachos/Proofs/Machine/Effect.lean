import Nachos.Machine.Mipssim

/-! What one instruction can do: six kinds of effects, each worked out from the registers. -/

namespace Nachos

/--
The general registers that an instruction reads or writes.

`LWL` and `LWR` also merge into their target, which is left out: a pending load of that register is
forwarded to them.
-/
def Instruction.touches (instr : Instruction) : List Nat :=
  match instr.opCode with
  | .add | .addu | .and | .nor | .or | .xor | .slt | .sltu | .sllv | .srav | .srlv | .sub
  | .subu => [instr.rs, instr.rt, instr.rd]
  | .addi | .addiu | .andi | .ori | .xori | .slti | .sltiu => [instr.rs, instr.rt]
  | .beq | .bne | .div | .divu | .mult | .multu => [instr.rs, instr.rt]
  | .lb | .lbu | .lh | .lhu | .lw | .sb | .sh | .sw | .swl | .swr => [instr.rs, instr.rt]
  | .bgez | .bgtz | .blez | .bltz | .jr | .mthi | .mtlo | .lwl | .lwr => [instr.rs]
  | .bgezal | .bltzal => [instr.rs, r31]
  | .jalr => [instr.rs, instr.rd]
  | .jal => [r31]
  | .sll | .sra | .srl => [instr.rt, instr.rd]
  | .mfhi | .mflo => [instr.rd]
  | .lui => [instr.rt]
  | .j | .syscall | .rfe | .unimp | .res => []

/-- The fields of an instruction name general registers. -/
theorem Instruction.decode_small (value : Word) :
    (decode value).rs < numGPRegs ∧ (decode value).rt < numGPRegs ∧
      (decode value).rd < numGPRegs := by
  have field : ∀ bits : Word, (bits &&& 0x1f).toNat < numGPRegs := by
    intro bits
    rw [BitVec.toNat_and]
    exact Nat.lt_of_le_of_lt Nat.and_le_right (by decide)
  exact ⟨field _, field _, field _⟩

/-- What an instruction touches are general registers. -/
theorem Instruction.touches_small (instr : Instruction)
    (small : instr.rs < numGPRegs ∧ instr.rt < numGPRegs ∧ instr.rd < numGPRegs) {x : Nat}
    (touched : x ∈ instr.touches) : x < numGPRegs := by
  -- It touches the registers that it names, and the one for the return address.
  have named : x = instr.rs ∨ x = instr.rt ∨ x = instr.rd ∨ x = r31 := by
    revert touched
    unfold touches
    split <;> simp only [List.mem_cons, List.not_mem_nil] <;> tauto
  rcases named with rfl | rfl | rfl | rfl
  · exact small.1
  · exact small.2.1
  · exact small.2.2
  · decide

/-- What an instruction does once it has read its operands. -/
inductive Effect
  -- The host stops.
  | stuck
  | raise (which : MachineException) (badVAddr : Word)
  | compute (writes : List (Nat × Word)) (pcAfter : Word)
  -- The value is made from the one in memory and from what a load that merges finds in its target.
  | load (addr : Word) (size rt : Nat) (pcAfter : Word) (value : Word → Word → Word)
  | store (addr : Word) (size : Nat) (value pcAfter : Word)
  -- The value is made from the word in memory and from the register that is stored.
  | merge (addr : Word) (rt : Nat) (pcAfter : Word) (value : Word → Word → Word)

namespace Effect

/-- An effect on the machine, when the clock shows `now`. -/
def perform (machine : Machine) (now : Int) : Effect → Option Machine.Executed
  | .stuck => none
  | .raise which badVAddr => machine.trap which badVAddr
  | .compute writes pcAfter =>
    (writes.foldl (fun machine write => machine.write write.1 write.2) machine).done pcAfter
  | .load addr size rt pcAfter value =>
    machine.reading now addr size fun word machine =>
      machine.loading pcAfter rt (value word (machine.merged rt))
  | .store addr size value pcAfter => machine.writing now addr size value pcAfter
  | .merge addr rt pcAfter value =>
    machine.reading now addr 4 fun word machine =>
      machine.writing now addr 4 (value word (machine.registers rt)) pcAfter

/-- The address of the data that the effect reads or writes. -/
def address : Effect → Option Word
  | .load addr _ _ _ _ | .store addr _ _ _ | .merge addr _ _ _ => some addr
  | .stuck | .raise _ _ | .compute _ _ => none

/--
The effect writes only what the instruction touches, or one of the registers of a product.

It reads and writes memory in the sizes there are, and raises no page fault of its own.
-/
def Keeps (instr : Instruction) : Effect → Prop
  | .stuck => True
  | .raise which _ => which ≠ .memoryException .pageFaultException
  | .compute writes _ =>
    ∀ write ∈ writes, write.1 ∈ instr.touches ∨ write.1 = hiReg ∨ write.1 = loReg
  | .load _ size rt _ _ => rt = instr.rt ∧ (size = 1 ∨ size = 2 ∨ size = 4)
  | .store _ size _ _ => size = 1 ∨ size = 2 ∨ size = 4
  | .merge _ rt _ _ => rt = instr.rt ∧ rt ∈ instr.touches

end Effect

/-- The effect of an instruction, from what is in the registers. -/
def Instruction.effect (instr : Instruction) (registers : Nat → Word) : Effect :=
  let link := registers nextPCReg + 4
  let rs := registers instr.rs
  let rt := registers instr.rt
  let addr := rs + instr.extra
  let target := registers nextPCReg + indexToAddr instr.extra
  let far := link &&& 0xf0000000 ||| indexToAddr instr.extra
  match instr.opCode with
  | .add =>
    if ¬ negative (rs ^^^ rt) ∧ negative (rs ^^^ (rs + rt)) then .raise .overflowException 0
    else .compute [(instr.rd, rs + rt)] link
  | .addi =>
    if ¬ negative (rs ^^^ instr.extra) ∧ negative (instr.extra ^^^ addr) then
      .raise .overflowException 0
    else .compute [(instr.rt, addr)] link
  | .addiu => .compute [(instr.rt, addr)] link
  | .addu => .compute [(instr.rd, rs + rt)] link
  | .and => .compute [(instr.rd, rs &&& rt)] link
  | .andi => .compute [(instr.rt, rs &&& (instr.extra &&& 0xffff))] link
  | .beq => .compute [] (if rs = rt then target else link)
  | .bgezal =>
    .compute [(r31, link)]
      (if ¬ negative (Function.update registers r31 link instr.rs) then target else link)
  | .bgez => .compute [] (if ¬ negative rs then target else link)
  | .bgtz => .compute [] (if BitVec.slt 0 rs then target else link)
  | .blez => .compute [] (if BitVec.sle rs 0 then target else link)
  | .bltzal =>
    .compute [(r31, link)]
      (if negative (Function.update registers r31 link instr.rs) then target else link)
  | .bltz => .compute [] (if negative rs then target else link)
  | .bne => .compute [] (if rs ≠ rt then target else link)
  | .div =>
    if rt = 0 then .compute [(loReg, 0), (hiReg, 0)] link
    else if rs = signBit ∧ rt = -1 then .stuck
    else .compute [(loReg, rs.sdiv rt), (hiReg, rs.srem rt)] link
  | .divu =>
    if rt = 0 then .compute [(loReg, 0), (hiReg, 0)] link
    else .compute [(loReg, rs / rt), (hiReg, rs % rt)] link
  | .jal => .compute [(r31, link)] far
  | .j => .compute [] far
  | .jalr => .compute [(instr.rd, link)] (Function.update registers instr.rd link instr.rs)
  | .jr => .compute [] rs
  | .lb => .load addr 1 instr.rt link fun value _ => Machine.extended value 0x80 0xff true
  | .lbu => .load addr 1 instr.rt link fun value _ => Machine.extended value 0x80 0xff false
  | .lh =>
    if addr &&& 0x1 ≠ 0 then .raise (.memoryException .addressErrorException) addr
    else .load addr 2 instr.rt link fun value _ => Machine.extended value 0x8000 0xffff true
  | .lhu =>
    if addr &&& 0x1 ≠ 0 then .raise (.memoryException .addressErrorException) addr
    else .load addr 2 instr.rt link fun value _ => Machine.extended value 0x8000 0xffff false
  | .lui => .compute [(instr.rt, instr.extra <<< 16)] link
  | .lw =>
    if addr &&& 0x3 ≠ 0 then .raise (.memoryException .addressErrorException) addr
    else .load addr 4 instr.rt link fun value _ => value
  | .lwl =>
    .load (addr - Machine.byteOf addr) 4 instr.rt link (Machine.loadLeft (Machine.byteOf addr))
  | .lwr =>
    .load (addr - Machine.byteOf addr) 4 instr.rt link (Machine.loadRight (Machine.byteOf addr))
  | .mfhi => .compute [(instr.rd, registers hiReg)] link
  | .mflo => .compute [(instr.rd, registers loReg)] link
  | .mthi => .compute [(hiReg, rs)] link
  | .mtlo => .compute [(loReg, rs)] link
  | .mult => .compute [(hiReg, (mult rs rt true).1), (loReg, (mult rs rt true).2)] link
  | .multu => .compute [(hiReg, (mult rs rt false).1), (loReg, (mult rs rt false).2)] link
  | .nor => .compute [(instr.rd, ~~~(rs ||| rt))] link
  | .or => .compute [(instr.rd, rs ||| rt)] link
  | .ori => .compute [(instr.rt, rs ||| (instr.extra &&& 0xffff))] link
  | .sb => .store addr 1 rt link
  | .sh => .store addr 2 rt link
  | .sll => .compute [(instr.rd, rt <<< instr.extra)] link
  | .sllv => .compute [(instr.rd, rt <<< (rs &&& 0x1f))] link
  | .slt => .compute [(instr.rd, if rs.slt rt then 1 else 0)] link
  | .slti => .compute [(instr.rt, if rs.slt instr.extra then 1 else 0)] link
  | .sltiu => .compute [(instr.rt, if rs < instr.extra then 1 else 0)] link
  | .sltu => .compute [(instr.rd, if rs < rt then 1 else 0)] link
  | .sra => .compute [(instr.rd, rt.sshiftRight instr.extra.toNat)] link
  | .srav => .compute [(instr.rd, rt.sshiftRight (rs &&& 0x1f).toNat)] link
  | .srl => .compute [(instr.rd, rt.sshiftRight instr.extra.toNat)] link
  | .srlv => .compute [(instr.rd, rt.sshiftRight (rs &&& 0x1f).toNat)] link
  | .sub =>
    if negative (rs ^^^ rt) ∧ negative (rs ^^^ (rs - rt)) then .raise .overflowException 0
    else .compute [(instr.rd, rs - rt)] link
  | .subu => .compute [(instr.rd, rs - rt)] link
  | .sw => .store addr 4 rt link
  | .swl =>
    .merge (addr - Machine.byteOf addr) instr.rt link (Machine.storeLeft (Machine.byteOf addr))
  | .swr =>
    .merge (addr - Machine.byteOf addr) instr.rt link (Machine.storeRight (Machine.byteOf addr))
  | .syscall => .raise .syscallException 0
  | .xor => .compute [(instr.rd, rs ^^^ rt)] link
  | .xori => .compute [(instr.rt, rs ^^^ (instr.extra &&& 0xffff))] link
  | .res => .raise .illegalInstrException 0
  | .unimp => .raise .illegalInstrException 0
  | .rfe => .stuck

/-- The switch of an instruction performs its effect. -/
theorem Machine.execute_eq (machine : Machine) (now : Int) (instr : Instruction) :
    machine.execute now instr = (instr.effect machine.registers).perform machine now := by
  obtain ⟨opCode, rs, rt, rd, extra⟩ := instr
  cases opCode
  case add | addi | sub | div | divu | lh | lhu | lw =>
    -- The effect depends on a test of the operands.
    simp only [execute, Instruction.effect]
    repeat' split
    all_goals rfl
  all_goals rfl

/-- The effect depends on what the instruction touches, and on a few registers of the machine. -/
theorem Instruction.effect_congr (instr : Instruction) {registers other : Nat → Word}
    (touched : ∀ x ∈ instr.touches, other x = registers x)
    (hi : other hiReg = registers hiReg) (lo : other loReg = registers loReg)
    (nextPC : other nextPCReg = registers nextPCReg) :
    instr.effect other = instr.effect registers := by
  obtain ⟨opCode, rs, rt, rd, extra⟩ := instr
  cases opCode
  all_goals
    simp only [touches, List.forall_mem_cons, List.not_mem_nil, false_imp_iff, forall_true_iff,
      and_true] at touched
    simp only [effect, touched, hi, lo, nextPC, Function.update_apply]

/-- The effect of an instruction writes no other registers than that. -/
theorem Instruction.effect_keeps (instr : Instruction) (registers : Nat → Word) :
    (instr.effect registers).Keeps instr := by
  obtain ⟨opCode, rs, rt, rd, extra⟩ := instr
  cases opCode
  case add | addi | sub | div | divu | lh | lhu | lw =>
    simp only [effect]
    repeat' split
    all_goals simp [Effect.Keeps, touches]
  all_goals simp [effect, Effect.Keeps, touches]

end Nachos
