import Nachos.Proofs.Machine.Mipssim

/-! Shifts, divisions, additions and subtractions, against what their results ought to be. -/

namespace Nachos

/-- The operations that a branch on a condition is decoded to. -/
def OpCode.branches : List OpCode := [.bltz, .bgez, .bltzal, .bgezal, .unimp]

/-- There are no others. -/
theorem branchOp_mem (raw : Word) : branchOp raw ∈ OpCode.branches := by
  simp only [branchOp]
  split_ifs
  all_goals decide

/-- Does an entry of the table give some operations no other format than this one? -/
def OpField.agrees (opCodes : List OpCode) (format : Format) : OpField × Format → Bool
  | (.op opCode, given) => opCode ∉ opCodes || given = format
  | (.special, given) => specialTable.all (· ∉ opCodes) || given = format
  | (.bcond, given) => OpCode.branches.all (· ∉ opCodes) || given = format

/-- The extra field of an operation that the whole table gives one format. -/
theorem decode_extra {opCodes : List OpCode} {format : Format} {raw : Word}
    (agree : opTable.all (OpField.agrees opCodes format) = true)
    (one : (Instruction.decode raw).opCode ∈ opCodes) :
    (Instruction.decode raw).extra = extraField raw format := by
  -- Both fields that are looked up have fewer values than the tables have entries.
  have small : ((raw >>> 26) &&& 0x3f).toNat < opTable.length := by
    rw [BitVec.toNat_and]
    exact Nat.lt_of_le_of_lt Nat.and_le_right (by decide)
  have low : (raw &&& 0x3f).toNat < specialTable.length := by
    rw [BitVec.toNat_and]
    exact Nat.lt_of_le_of_lt Nat.and_le_right (by decide)
  -- The entry of the table is the one for the top six bits.
  obtain ⟨field, given, entry⟩ : ∃ field given,
      opTable.getD ((raw >>> 26) &&& 0x3f).toNat (.op .res, .ifmt) = (field, given) := ⟨_, _, rfl⟩
  -- It is in the table, so the format agrees with it.
  have listed : (field, given) ∈ opTable := by
    rw [← entry, List.getD_eq_getElem _ _ small]
    exact List.getElem_mem small
  have agrees := List.all_eq_true.mp agree _ listed
  rw [Instruction.decode, entry] at one ⊢
  show extraField raw given = extraField raw format
  -- The entry names the operation, or the table of functions or of branches that does.
  cases field with
  -- The entry is the operation itself.
  | op opCode =>
    have this : opCode ∈ opCodes := one
    rw [show given = format by simpa [OpField.agrees, this] using agrees]
  -- The entry leads to the functions, of which one is the operation.
  | special =>
    have this : specialTable.getD (raw &&& 0x3f).toNat .res ∈ opCodes := one
    rw [List.getD_eq_getElem _ _ low] at this
    have some : specialTable.all (· ∉ opCodes) = false := by
      rw [List.all_eq_false]
      exact ⟨_, List.getElem_mem low, by simpa using this⟩
    rw [OpField.agrees, some, Bool.false_or] at agrees
    rw [of_decide_eq_true agrees]
  -- It leads to the branches.
  | bcond =>
    have this : branchOp raw ∈ opCodes := one
    have some : OpCode.branches.all (· ∉ opCodes) = false := by
      rw [List.all_eq_false]
      exact ⟨_, branchOp_mem raw, by simpa using this⟩
    rw [OpField.agrees, some, Bool.false_or] at agrees
    rw [of_decide_eq_true agrees]

/-- The operations that shift. -/
def OpCode.shifts : List OpCode := [.sll, .sllv, .srl, .srlv, .sra, .srav]

/-- The extra field of a shift is its immediate amount. -/
theorem decode_shift {raw : Word} (shift : (Instruction.decode raw).opCode ∈ OpCode.shifts) :
    (Instruction.decode raw).extra.toNat = raw.toNat / 2 ^ 6 % 2 ^ 5 := by
  have extra : (Instruction.decode raw).extra = extraField raw .rfmt :=
    decode_extra (by decide) shift
  rw [extra, extraField, BitVec.toNat_and, BitVec.toNat_ushiftRight, Nat.shiftRight_eq_div_pow]
  exact Nat.and_two_pow_sub_one_eq_mod _ 5

namespace Machine

variable (machine : Machine) (now : Int)

/-- What an instruction shifts by: its immediate field, or the low five bits of a register. -/
def shiftAmount (raw : Word) : Nat :=
  let instr := Instruction.decode raw
  if instr.opCode ∈ [.sllv, .srlv, .srav] then (machine.registers instr.rs).toNat % 2 ^ 5
  else raw.toNat / 2 ^ 6 % 2 ^ 5

end Machine

/-- The shifts as MIPS defines them: on the unsigned operand, or on the signed one. -/
def OpCode.shift (opCode : OpCode) (operand : Word) (amount : Nat) : Word :=
  if opCode ∈ [.sll, .sllv] then BitVec.ofNat 32 (operand.toNat * 2 ^ amount)
  else if opCode ∈ [.srl, .srlv] then BitVec.ofNat 32 (operand.toNat / 2 ^ amount)
  else BitVec.ofInt 32 (operand.toInt / 2 ^ amount)

/-- The shifts as the simulator computes them, all but the left ones on an int. -/
def OpCode.hostShift (opCode : OpCode) (operand : Word) (amount : Nat) : Word :=
  if opCode ∈ [.sll, .sllv] then operand <<< amount else operand.sshiftRight amount

/-- What a shift puts in its register. -/
theorem Machine.execute_shift (machine : Machine) (now : Int) {raw : Word}
    (shift : (Instruction.decode raw).opCode ∈ OpCode.shifts) :
    machine.execute now (.decode raw) =
      (machine.write (Instruction.decode raw).rd
        ((Instruction.decode raw).opCode.hostShift (machine.registers (Instruction.decode raw).rt)
          (machine.shiftAmount raw))).done (machine.registers nextPCReg + 4) := by
  -- The amount is in the instruction, or in the low bits of a register.
  have immediate := decode_shift shift
  have low : ∀ value : Nat, value &&& 31 = value % 32 := fun value =>
    Nat.and_two_pow_sub_one_eq_mod value 5
  simp only [OpCode.shifts, List.mem_cons, List.not_mem_nil, or_false] at shift
  -- One case for each of the six operations.
  rcases shift with op | op | op | op | op | op
  all_goals
    rw [execute_eq]
    simp [Instruction.effect, Effect.perform, shiftAmount, OpCode.hostShift, op, immediate, low]

/-- A shift to the left multiplies, and drops what does not fit. -/
theorem leftShift_eq (operand : Word) (amount : Nat) :
    operand <<< amount = BitVec.ofNat 32 (operand.toNat * 2 ^ amount) := by
  apply BitVec.eq_of_toNat_eq
  rw [BitVec.toNat_shiftLeft, BitVec.toNat_ofNat, Nat.shiftLeft_eq]

/-- A shift that brings the sign in divides the signed operand, and rounds down. -/
theorem arithmeticShift_eq (operand : Word) (amount : Nat) :
    operand.sshiftRight amount = BitVec.ofInt 32 (operand.toInt / 2 ^ amount) := by
  -- As a signed number, the result is the quotient rounded down.
  have divided : (operand.sshiftRight amount).toInt = operand.toInt / 2 ^ amount := by
    rw [BitVec.toInt_sshiftRight, Int.shiftRight_eq_div_pow]
    norm_cast
  rw [← divided, BitVec.ofInt_toInt]

/-- The same shift divides the unsigned operand exactly when there is no sign to bring in. -/
theorem logicalShift_eq_iff (operand : Word) (amount : Nat) :
    operand.sshiftRight amount = BitVec.ofNat 32 (operand.toNat / 2 ^ amount) ↔
      operand.msb = false ∨ amount = 0 := by
  -- Neither side exceeds the operand, so they can be compared as numbers.
  have wide := operand.isLt
  have less : operand.toNat / 2 ^ amount ≤ operand.toNat := Nat.div_le_self _ _
  rw [← BitVec.toNat_inj, BitVec.toNat_ofNat, Nat.mod_eq_of_lt (by omega),
    BitVec.toNat_sshiftRight, Nat.shiftRight_eq_div_pow, Nat.shiftRight_eq_div_pow]
  cases sign : operand.msb with
  -- Without the sign both shifts divide alike.
  | false => simp
  | true =>
    have large : 2 ^ 31 ≤ operand.toNat := by simpa [BitVec.msb_eq_decide] using sign
    rw [if_pos rfl]
    cases amount with
    -- Nothing is shifted in.
    | zero =>
      refine iff_of_true ?_ (.inr rfl)
      omega
    | succ amount =>
      -- The result still has its top bit set, and half of the operand has not.
      have top : (2 ^ 32 - 1 - operand.toNat) / 2 ^ (amount + 1) ≤ 2 ^ 32 - 1 - operand.toNat :=
        Nat.div_le_self _ _
      have half : operand.toNat / 2 ^ (amount + 1) ≤ operand.toNat / 2 := by
        rw [Nat.pow_succ', ← Nat.div_div_eq_div_mul]
        exact Nat.div_le_self _ _
      refine iff_of_false ?_ (by simp)
      omega

/-- The simulator shifts as MIPS defines it, but for logical shifts of a set sign bit. -/
theorem hostShift_eq_iff (opCode : OpCode) (operand : Word) (amount : Nat) :
    opCode.hostShift operand amount = opCode.shift operand amount ↔
      (opCode ∈ [.srl, .srlv] → operand.msb = false ∨ amount = 0) := by
  unfold OpCode.hostShift OpCode.shift
  -- A shift to the left is no logical one, and the others differ in what they divide.
  by_cases left : opCode ∈ [.sll, .sllv]
  · have other : opCode ∉ [.srl, .srlv] := by
      rcases List.mem_pair.mp left with rfl | rfl
      all_goals decide
    -- A shift to the left is the definition itself.
    rw [if_pos left, if_pos left, leftShift_eq]
    exact iff_of_true rfl fun right => absurd right other
  rw [if_neg left, if_neg left]
  -- One to the right is logical or arithmetic.
  by_cases right : opCode ∈ [.srl, .srlv]
  · rw [if_pos right, logicalShift_eq_iff]
    exact ⟨fun same _ => same, fun same => same right⟩
  · -- The host shifts arithmetically, as the definition does here.
    rw [if_neg right, arithmeticShift_eq]
    exact iff_of_true rfl fun there => absurd there right

/--
A shift follows its definition exactly when it is not a logical one of a number whose sign bit is
set, by an amount that is not zero.
-/
theorem Machine.shift_follows_iff (machine : Machine) (now : Int) (raw : Word)
    (shift : (Instruction.decode raw).opCode ∈ OpCode.shifts) :
    machine.execute now (.decode raw) =
        (machine.write (Instruction.decode raw).rd
          ((Instruction.decode raw).opCode.shift (machine.registers (Instruction.decode raw).rt)
            (machine.shiftAmount raw))).done (machine.registers nextPCReg + 4) ↔
      ((Instruction.decode raw).opCode ∈ [.srl, .srlv] →
        (machine.registers (Instruction.decode raw).rt).msb = false ∨
          machine.shiftAmount raw = 0) := by
  rw [machine.execute_shift now shift, ← hostShift_eq_iff]
  constructor
  -- The register shows what was written.
  · intro same
    have after := (Machine.Executed.finished.inj (Option.some.inj same)).1
    have written := congrArg (fun machine => registers machine (Instruction.decode raw).rd) after
    simpa using written
  · -- The other direction is that of the lemma.
    intro same
    rw [same]

/-- A logical shift by one place, from the second register to the third. -/
def srlByOne : Word := 0x21842

/-- A number without a sign bit is halved. -/
theorem Machine.shift_follows_clear :
    let machine := (residentMachine []).write 2 0x7fffffff
    machine.execute 0 (.decode srlByOne) =
      (machine.write (Instruction.decode srlByOne).rd
        ((Instruction.decode srlByOne).opCode.shift
          (machine.registers (Instruction.decode srlByOne).rt)
          (machine.shiftAmount srlByOne))).done (machine.registers nextPCReg + 4) := by
  intro machine
  exact (shift_follows_iff machine 0 srlByOne (by decide)).mpr fun _ => .inl (by decide)

/-- The sign bit is brought in, so that the result is not a quarter but three quarters of 2^32. -/
theorem shift_bringsSignIn :
    let machine := (residentMachine []).write 2 0x80000000
    (Instruction.decode srlByOne).opCode ∈ OpCode.shifts ∧
      machine.execute 0 (.decode srlByOne) =
        (machine.write 3 0xc0000000).done (machine.registers nextPCReg + 4) ∧
      ¬ (machine.execute 0 (.decode srlByOne) =
        (machine.write (Instruction.decode srlByOne).rd
          ((Instruction.decode srlByOne).opCode.shift
            (machine.registers (Instruction.decode srlByOne).rt)
            (machine.shiftAmount srlByOne))).done (machine.registers nextPCReg + 4)) := by
  intro machine
  -- The instruction takes register 2 to register 3, by one.
  have shift : (Instruction.decode srlByOne).opCode ∈ OpCode.shifts := by decide
  have fields : (Instruction.decode srlByOne).opCode = .srl ∧
      (Instruction.decode srlByOne).rt = 2 ∧ (Instruction.decode srlByOne).rd = 3 := by decide
  have held : machine.registers 2 = 0x80000000 := rfl
  have one : machine.shiftAmount srlByOne = 1 := rfl
  -- The host gives the number with two bits set.
  have three : machine.execute 0 (.decode srlByOne) =
      (machine.write 3 0xc0000000).done (machine.registers nextPCReg + 4) := by
    rw [machine.execute_shift 0 shift, fields.1, fields.2.1, fields.2.2, held, one]
    congr 2
  -- Register 3 tells the two results apart.
  refine ⟨shift, three, fun same => ?_⟩
  rw [three, fields.1, fields.2.1, fields.2.2, held, one] at same
  have after := (Machine.Executed.finished.inj (Option.some.inj same)).1
  -- The definition has only the lower one.
  have written := congrArg (fun machine => Machine.registers machine 3) after
  revert written
  decide

/-- What the quotient and the remainder of two signed words are. -/
structure SignedDivision (dividend divisor lo hi : Word) : Prop where
  law : lo * divisor + hi = dividend
  small : hi.toInt.natAbs < divisor.toInt.natAbs
  sign : hi = 0 ∨ (hi.toInt < 0 ↔ dividend.toInt < 0)

/-- What the quotient and the remainder of two unsigned words are. -/
structure UnsignedDivision (dividend divisor lo hi : Word) : Prop where
  law : lo * divisor + hi = dividend
  small : hi.toNat < divisor.toNat

/-- Rounding to zero leaves a remainder with the sign of the dividend. -/
theorem signedDivision (dividend divisor : Word) (nonzero : divisor ≠ 0) :
    SignedDivision dividend divisor (dividend.sdiv divisor) (dividend.srem divisor) := by
  have divides : divisor.toInt ≠ 0 := fun zero => nonzero (BitVec.eq_of_toInt_eq zero)
  have rest : (dividend.srem divisor).toInt = dividend.toInt.tmod divisor.toInt :=
    BitVec.toInt_srem dividend divisor
  -- The law, the size of the remainder, and its sign.
  refine ⟨?_, ?_, ?_⟩
  · -- Quotient and remainder are those of the signed numbers.
    have quotient : dividend.sdiv divisor =
        BitVec.ofInt 32 (dividend.toInt.tdiv divisor.toInt) := by
      apply BitVec.eq_of_toInt_eq
      rw [BitVec.toInt_sdiv, BitVec.toInt_ofInt]
    have remainder : dividend.srem divisor =
        BitVec.ofInt 32 (dividend.toInt.tmod divisor.toInt) := by
      rw [← rest, BitVec.ofInt_toInt]
    -- The law holds of the signed numbers, and modulo 2^32 also of the words.
    have whole : dividend.toInt.tdiv divisor.toInt * divisor.toInt +
        dividend.toInt.tmod divisor.toInt = dividend.toInt := Int.tdiv_mul_add_tmod _ _
    calc dividend.sdiv divisor * divisor + dividend.srem divisor
        = BitVec.ofInt 32 (dividend.toInt.tdiv divisor.toInt) * BitVec.ofInt 32 divisor.toInt +
            BitVec.ofInt 32 (dividend.toInt.tmod divisor.toInt) := by
          rw [quotient, remainder, BitVec.ofInt_toInt]
      _ = BitVec.ofInt 32 dividend.toInt := by rw [← BitVec.ofInt_mul, ← BitVec.ofInt_add, whole]
      _ = dividend := BitVec.ofInt_toInt
  · -- The remainder is less than the divisor.
    rw [rest, Int.natAbs_tmod]
    exact Nat.mod_lt _ (Int.natAbs_pos.mpr divides)
  · -- It is zero, or it has a sign.
    by_cases zero : dividend.srem divisor = 0
    · exact .inl zero
    · right
      have remains : dividend.toInt.tmod divisor.toInt ≠ 0 := by
        rw [← rest]
        exact fun none => zero (BitVec.eq_of_toInt_eq none)
      rw [rest]
      -- The remainder of a negative number is the negated one of its absolute value.
      by_cases below : dividend.toInt < 0
      · have sign := Int.tmod_nonneg divisor.toInt (Int.neg_nonneg_of_nonpos (Int.le_of_lt below))
        rw [Int.neg_tmod] at sign
        omega
      · -- That of any other is the one of its absolute value.
        have sign := Int.tmod_nonneg divisor.toInt (Int.not_lt.mp below)
        omega

/-- The unsigned quotient and remainder are those of natural numbers. -/
theorem unsignedDivision (dividend divisor : Word) (nonzero : divisor ≠ 0) :
    UnsignedDivision dividend divisor (dividend / divisor) (dividend % divisor) := by
  have divides : 0 < divisor.toNat :=
    Nat.pos_of_ne_zero fun zero => nonzero (BitVec.eq_of_toNat_eq zero)
  refine ⟨?_, ?_⟩
  · apply BitVec.eq_of_toNat_eq
    have whole := Nat.div_add_mod' dividend.toNat divisor.toNat
    have wide := dividend.isLt
    rw [BitVec.toNat_add, BitVec.toNat_mul, BitVec.toNat_udiv, BitVec.toNat_umod]
    rw [Nat.mod_add_mod, whole, Nat.mod_eq_of_lt wide]
  · rw [BitVec.toNat_umod]
    exact Nat.mod_lt _ divides

namespace Machine

/-- The division is carried out, and what it leaves in the two registers obeys the law. -/
def Divides (machine : Machine) (now : Int) (instr : Instruction) : Prop :=
  ∃ after : Machine,
    machine.execute now instr = after.done (machine.registers nextPCReg + 4) ∧
      (machine.registers instr.rt ≠ 0 →
        if instr.opCode = .div then
          SignedDivision (machine.registers instr.rs) (machine.registers instr.rt)
            (after.registers loReg) (after.registers hiReg)
        else
          UnsignedDivision (machine.registers instr.rs) (machine.registers instr.rt)
            (after.registers loReg) (after.registers hiReg))

/-- A division obeys the law exactly when its quotient fits. -/
theorem divides_iff (machine : Machine) (now : Int) (instr : Instruction)
    (division : instr.opCode ∈ [.div, .divu]) :
    machine.Divides now instr ↔
      ¬ (instr.opCode = .div ∧ machine.registers instr.rs = signBit ∧
        machine.registers instr.rt = -1) := by
  obtain ⟨opCode, rs, rt, rd, extra⟩ := instr
  simp only [List.mem_cons, List.not_mem_nil, or_false] at division
  -- The two registers are different ones.
  have apart : loReg ≠ hiReg := by decide
  by_cases zero : machine.registers rt = 0
  · -- A division by zero is not carried out on the host.
    have fits : ¬ machine.registers rt = -1 := by
      rw [zero]
      decide
    refine iff_of_true ⟨(machine.write loReg 0).write hiReg 0, ?_, absurd zero⟩ fun wraps =>
      fits wraps.2.2
    rcases division with rfl | rfl
    all_goals
      simp only [execute]
      rw [if_pos zero]
  · -- A signed division.
    rcases division with rfl | rfl
    · by_cases wraps : machine.registers rs = signBit ∧ machine.registers rt = -1
      · -- The host stops.
        refine iff_of_false ?_ fun fits => fits ⟨rfl, wraps⟩
        rintro ⟨after, executed, -⟩
        simp only [execute] at executed
        rw [if_neg zero, if_pos wraps] at executed
        cases executed
      · -- The quotient fits, and is the rounded one.
        refine iff_of_true ⟨(machine.write loReg ((machine.registers rs).sdiv
          (machine.registers rt))).write hiReg ((machine.registers rs).srem
          (machine.registers rt)), ?_, fun _ => ?_⟩ fun both => wraps both.2
        · simp only [execute]
          rw [if_neg zero, if_neg wraps]
        · -- So is the remainder.
          have law := signedDivision (machine.registers rs) (machine.registers rt) zero
          simpa [apart] using law
    · -- An unsigned division always fits.
      refine iff_of_true ⟨(machine.write loReg (machine.registers rs /
        machine.registers rt)).write hiReg (machine.registers rs % machine.registers rt), ?_,
        fun _ => ?_⟩ fun both => by simp at both
      · simp only [execute]
        rw [if_neg zero]
      · -- Its law is that of the natural numbers.
        have law := unsignedDivision (machine.registers rs) (machine.registers rt) zero
        simpa [apart] using law

/-- A number is divided by -1 if it is not the least one. -/
theorem divides_seven :
    (((residentMachine []).write 2 7).write 3 (-1)).Divides 0 (.decode 0x43001a) :=
  (divides_iff _ 0 _ (by decide)).mpr fun least => absurd least.2.1 (by decide)

/-- The least int divided by -1, in the second and the third register. -/
theorem divides_notLeast :
    let machine := ((residentMachine []).write 2 signBit).write 3 (-1)
    (Instruction.decode 0x43001a).opCode ∈ [OpCode.div, .divu] ∧
      machine.registers (Instruction.decode 0x43001a).rt ≠ 0 ∧
      ¬ machine.Divides 0 (.decode 0x43001a) := by
  intro machine
  refine ⟨by decide, by decide, ?_⟩
  rintro ⟨after, executed, -⟩
  have stuck : machine.execute 0 (.decode 0x43001a) = none := rfl
  rw [stuck] at executed
  cases executed

end Machine

/-- A number is negative when its sign bit is set. -/
theorem negative_iff (value : Word) : negative value ↔ value.msb = true := by
  have masked : value &&& signBit = if value.getLsbD 31 then BitVec.twoPow 32 31 else 0 :=
    BitVec.and_twoPow value 31
  rw [negative, masked, BitVec.msb_eq_getLsbD_last]
  cases value.getLsbD 31 with
  | false => simp
  | true => exact iff_of_true (by decide) rfl

/-- The sign bits of two words differ when one number is negative and the other is not. -/
theorem negative_xor (a b : Word) : negative (a ^^^ b) ↔ (a.toInt < 0 ↔ ¬ b.toInt < 0) := by
  have sign : ∀ value : Word, value.toInt < 0 ↔ value.msb = true := by
    intro value
    rw [BitVec.msb_eq_toInt, decide_eq_true_iff]
  rw [negative_iff, BitVec.msb_xor, sign, sign]
  cases a.msb <;> cases b.msb <;> decide

/-- What is left of a number that is out of range by less than the range is wide. -/
theorem bmod_cases {value : Int} (near : -2 ^ 32 ≤ value ∧ value < 2 ^ 32) :
    InInt value ∧ value.bmod (2 ^ 32) = value ∨
      2 ^ 31 ≤ value ∧ value.bmod (2 ^ 32) = value - 2 ^ 32 ∨
      value < -2 ^ 31 ∧ value.bmod (2 ^ 32) = value + 2 ^ 32 := by
  rw [Int.bmod_def]
  split <;> omega

/-- Numbers with the same sign have a sum with another sign exactly when it does not fit. -/
theorem sum_overflows_iff (a b : Word) :
    ¬ negative (a ^^^ b) ∧ negative (a ^^^ (a + b)) ↔ ¬ InInt (a.toInt + b.toInt) := by
  have first := inInt_toInt a
  have second := inInt_toInt b
  rw [negative_xor, negative_xor, BitVec.toInt_add]
  have wrapped := @bmod_cases (a.toInt + b.toInt) ⟨by omega, by omega⟩
  omega

/-- Numbers with different signs have a difference with another sign when it does not fit. -/
theorem difference_overflows_iff (a b : Word) :
    negative (a ^^^ b) ∧ negative (a ^^^ (a - b)) ↔ ¬ InInt (a.toInt - b.toInt) := by
  have first := inInt_toInt a
  have second := inInt_toInt b
  rw [negative_xor, negative_xor, BitVec.toInt_sub]
  have wrapped := @bmod_cases (a.toInt - b.toInt) ⟨by omega, by omega⟩
  omega

/-- A difference of words is the word of the difference. -/
theorem ofInt_difference (a b : Word) : BitVec.ofInt 32 (a.toInt - b.toInt) = a - b := by
  apply BitVec.eq_of_toInt_eq
  rw [BitVec.toInt_ofInt, BitVec.toInt_sub]

/-- The operations that add and subtract and may overflow. -/
def OpCode.checked : List OpCode := [.add, .addi, .sub]

/-- The operations that add and subtract and drop what does not fit. -/
def OpCode.unchecked : List OpCode := [.addu, .addiu, .subu]

/-- The extra field of an immediate operation is its low sixteen bits, with their sign. -/
theorem decode_immediate {raw : Word}
    (immediate : (Instruction.decode raw).opCode ∈ [OpCode.addi, .addiu]) :
    (Instruction.decode raw).extra.toInt = (raw.setWidth 16).toInt := by
  have extra : (Instruction.decode raw).extra = extraField raw .ifmt :=
    decode_extra (by decide) immediate
  -- The field is the lower half of the instruction.
  have low : (raw &&& 0xffff).toNat = raw.toNat % 2 ^ 16 := by
    rw [BitVec.toNat_and]
    exact Nat.and_two_pow_sub_one_eq_mod _ 16
  have half : (raw.setWidth 16).toNat = raw.toNat % 2 ^ 16 := BitVec.toNat_setWidth _ _
  have small : raw.toNat % 2 ^ 16 < 2 ^ 16 := Nat.mod_lt _ (by decide)
  -- The test of the source looks at the bit 15.
  have sign : raw &&& 0xffff &&& 0x8000 = if raw.getLsbD 15 then BitVec.twoPow 32 15 else 0 := by
    rw [BitVec.and_assoc]
    exact BitVec.and_twoPow raw 15
  -- That is the sign of the half word.
  have bit : raw.getLsbD 15 = decide (2 ^ 15 ≤ raw.toNat % 2 ^ 16) := by
    rw [← half, ← BitVec.msb_eq_decide (raw.setWidth 16), BitVec.msb_eq_getLsbD_last,
      BitVec.getLsbD_setWidth]
    rfl
  rw [extra, extraField, sign, bit, BitVec.toInt_eq_toNat_cond (raw.setWidth 16), half]
  by_cases below : 2 ^ 15 ≤ raw.toNat % 2 ^ 16
  · -- The sign fills the upper half.
    have filled : (raw &&& 0xffff ||| 0xffff0000).toNat = 0xffff0000 + raw.toNat % 2 ^ 16 := by
      rw [BitVec.toNat_or, low, Nat.or_comm]
      exact (Nat.shiftLeft_add_eq_or_of_lt small 0xffff).symm
    rw [decide_eq_true below, if_pos rfl, if_pos (by decide), if_neg (by omega),
      BitVec.toInt_eq_toNat_cond, filled]
    omega
  · -- Without the sign the upper half is zero.
    simp only [decide_eq_false below, Bool.false_eq_true, if_false, ne_eq, not_true_eq_false]
    rw [if_pos (by omega), BitVec.toInt_eq_toNat_cond, low, if_pos (by omega)]

namespace Machine

/-- The register that an addition or a subtraction writes. -/
def destination (raw : Word) : Nat :=
  if (Instruction.decode raw).opCode ∈ [.addi, .addiu] then (Instruction.decode raw).rt
  else (Instruction.decode raw).rd

/-- The sum or the difference that an instruction is about, as a number without bounds. -/
def exactResult (machine : Machine) (raw : Word) : Int :=
  let instr := Instruction.decode raw
  let rs := (machine.registers instr.rs).toInt
  let rt := (machine.registers instr.rt).toInt
  if instr.opCode ∈ [.addi, .addiu] then rs + (raw.setWidth 16).toInt
  else if instr.opCode ∈ [.sub, .subu] then rs - rt
  else rs + rt

/-- What an addition or a subtraction comes to. -/
theorem execute_sum (machine : Machine) (now : Int) (raw : Word)
    (sum : (Instruction.decode raw).opCode ∈ OpCode.checked ++ OpCode.unchecked) :
    machine.execute now (.decode raw) =
      if (Instruction.decode raw).opCode ∈ OpCode.checked ∧ ¬ InInt (machine.exactResult raw) then
        machine.trap .overflowException 0
      else
        (machine.write (destination raw) (BitVec.ofInt 32 (machine.exactResult raw))).done
          (machine.registers nextPCReg + 4) := by
  have immediate := @decode_immediate raw
  unfold destination exactResult
  revert sum immediate
  generalize (raw.setWidth 16).toInt = low
  generalize Instruction.decode raw = instr
  obtain ⟨opCode, rs, rt, rd, extra⟩ := instr
  intro sum immediate
  simp only [OpCode.checked, OpCode.unchecked, List.cons_append, List.nil_append, List.mem_cons,
    List.not_mem_nil, or_false] at sum immediate ⊢
  rcases sum with rfl | rfl | rfl | rfl | rfl | rfl
  · -- ADD
    simp only [execute, sum_overflows_iff]
    simp [BitVec.ofInt_add]
  · -- ADDI compares the immediate with the sum, which is just as well.
    have value := immediate (.inl rfl)
    have swapped := sum_overflows_iff extra (machine.registers rs)
    rw [BitVec.xor_comm extra (machine.registers rs), BitVec.add_comm, Int.add_comm] at swapped
    simp only [execute, swapped, ← value]
    simp [BitVec.ofInt_add]
  · -- SUB
    simp only [execute, difference_overflows_iff]
    simp [ofInt_difference]
  · -- ADDU
    simp [execute, BitVec.ofInt_add]
  · -- ADDIU
    have value := immediate (.inr rfl)
    simp [execute, ← value, BitVec.ofInt_add]
  · -- SUBU
    simp [execute, ofInt_difference]

/-- The destination is a general register. -/
theorem destination_small (raw : Word) : destination raw < numGPRegs := by
  have fields := Instruction.decode_small raw
  unfold destination
  split
  · exact fields.2.1
  · exact fields.2.2

/-- And so it is no special one. -/
theorem destination_ne {raw : Word} {special : Nat} (large : numGPRegs ≤ special) :
    destination raw ≠ special :=
  Nat.ne_of_lt (Nat.lt_of_lt_of_le (destination_small raw) large)

/-- A load that is not pending leaves the destination alone. -/
theorem destination_delayedLoad {machine : Machine} {raw : Word}
    (idle : machine.registers loadReg = 0) (visible : destination raw ≠ 0) :
    (machine.delayedLoad 0 0).registers (destination raw) =
      machine.registers (destination raw) := by
  have nothing : destination raw ≠ (0 : Word).toNat := visible
  rw [delayedLoad_registers, idle, if_neg visible, if_neg (destination_ne (by decide)),
    if_neg (destination_ne (by decide)), if_neg nothing]

/-- What an addition or a subtraction writes is still there once the instruction has ended. -/
theorem destination_after {machine : Machine} {raw : Word} (value pcAfter : Word)
    (idle : machine.registers loadReg = 0) (visible : destination raw ≠ 0) :
    (((machine.write (destination raw) value).delayedLoad 0 0).advance pcAfter).registers
      (destination raw) = value := by
  have still : (machine.write (destination raw) value).registers loadReg = 0 := by
    rw [write_registers, if_neg (destination_ne (by decide)).symm, idle]
  have counter : ∀ special ≥ pcReg, destination raw ≠ special := fun _ large =>
    destination_ne (Nat.le_trans (by decide) large)
  -- The program counters are no general registers.
  simp only [advance, write_registers]
  rw [if_neg (counter nextPCReg (by decide)), if_neg (counter pcReg (Nat.le_refl _)),
    if_neg (counter prevPCReg (by decide))]
  rw [destination_delayedLoad still visible, write_registers, if_pos rfl]

/-- An exception leaves the destination alone. -/
theorem destination_trapped {machine : Machine} {raw : Word} (badVAddr : Word)
    (idle : machine.registers loadReg = 0) (visible : destination raw ≠ 0) :
    (machine.raiseException badVAddr).registers (destination raw) =
      machine.registers (destination raw) := by
  have still : (machine.write badVAddrReg badVAddr).registers loadReg = 0 := by
    rw [write_registers, if_neg (by decide), idle]
  rw [raiseException, destination_delayedLoad still visible, write_registers,
    if_neg (destination_ne (by decide))]

/--
Overflow is detected exactly.

An operation that checks for it raises the exception, and leaves its destination alone, exactly
when the result does not fit; the others never do, and drop what does not fit.
-/
theorem overflow_isExact (machine : Machine) (now : Int) (raw : Word)
    (idle : machine.registers loadReg = 0) (visible : destination raw ≠ 0) :
    ((Instruction.decode raw).opCode ∈ OpCode.checked →
      ((∃ after, machine.execute now (.decode raw) = some (.trapped .overflowException after)) ↔
        ¬ InInt (machine.exactResult raw)) ∧
      (∀ after, machine.execute now (.decode raw) = some (.trapped .overflowException after) →
        after.registers (destination raw) = machine.registers (destination raw)) ∧
      (InInt (machine.exactResult raw) → ∃ after : Machine,
        machine.execute now (.decode raw) = after.done (machine.registers nextPCReg + 4) ∧
          (((after.delayedLoad 0 0).advance (machine.registers nextPCReg + 4)).registers
            (destination raw)).toInt = machine.exactResult raw)) ∧
    ((Instruction.decode raw).opCode ∈ OpCode.unchecked → ∃ after : Machine,
      machine.execute now (.decode raw) = after.done (machine.registers nextPCReg + 4) ∧
        ((after.delayedLoad 0 0).advance (machine.registers nextPCReg + 4)).registers
          (destination raw) = BitVec.ofInt 32 (machine.exactResult raw)) := by
  constructor
  · -- An operation that checks.
    intro checks
    have executed := machine.execute_sum now raw (List.mem_append_left _ checks)
    by_cases fits : InInt (machine.exactResult raw)
    · -- The result fits, and the destination receives it.
      rw [if_neg fun overflows => overflows.2 fits] at executed
      have calm : ∀ after, machine.execute now (.decode raw) ≠
          some (.trapped .overflowException after) := by
        intro after raised
        rw [executed] at raised
        cases raised
      refine ⟨iff_of_false (fun ⟨after, raised⟩ => calm after raised) (not_not.mpr fits),
        fun after raised => absurd raised (calm after), fun _ => ⟨_, executed, ?_⟩⟩
      rw [destination_after _ _ idle visible, BitVec.toInt_ofInt, bmod_of_inInt fits]
    · -- It does not fit, and the exception is raised.
      rw [if_pos ⟨checks, fits⟩] at executed
      refine ⟨iff_of_true ⟨_, executed⟩ fits, ?_, fun inside => absurd inside fits⟩
      intro after raised
      rw [executed] at raised
      cases raised
      exact destination_trapped 0 idle visible
  · -- An operation that does not check.
    intro drops
    -- The host adds modulo 2^32.
    have executed := machine.execute_sum now raw (List.mem_append_right _ drops)
    have never : (Instruction.decode raw).opCode ∉ OpCode.checked := by
      have apart : ∀ opCode ∈ OpCode.unchecked, opCode ∉ OpCode.checked := by decide
      exact apart _ drops
    rw [if_neg fun overflows => never overflows.1] at executed
    exact ⟨_, executed, destination_after _ _ idle visible⟩

/-- The largest int plus one, which overflows, and minus one, which does not. -/
theorem overflow_isExact_largest :
    let machine := ((residentMachine []).write 2 0x7fffffff).write 3 1
    (∃ after, machine.execute 0 (.decode 0x430820) = some (.trapped .overflowException after)) ∧
      ∃ after : Machine,
        machine.execute 0 (.decode 0x430822) = after.done (machine.registers nextPCReg + 4) ∧
          (((after.delayedLoad 0 0).advance (machine.registers nextPCReg + 4)).registers
            1).toInt = 0x7ffffffe := by
  intro machine
  have idle : machine.registers loadReg = 0 := rfl
  refine ⟨?_, ?_⟩
  · -- The sum does not fit, so there is an exception.
    have exact := (overflow_isExact machine 0 0x430820 idle (by decide)).1 (by decide)
    exact exact.1.mpr (by decide)
  · -- The difference fits, and is in the register.
    have exact := (overflow_isExact machine 0 0x430822 idle (by decide)).1 (by decide)
    exact exact.2.2 (by decide)

end Machine

end Nachos
