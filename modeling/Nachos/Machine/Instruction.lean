import Nachos.Theory.Bytes

/-! The instructions of the simulated MIPS processor, and how they are decoded. -/

namespace Nachos

/-- The operations, under the names of the MIPS manual. -/
inductive OpCode
  | add | addi | addiu | addu | and | andi
  | beq | bgez | bgezal | bgtz | blez | bltz | bltzal | bne
  | div | divu | j | jal | jalr | jr
  | lb | lbu | lh | lhu | lui | lw | lwl | lwr
  | mfhi | mflo | mthi | mtlo | mult | multu | nor | or | ori | rfe
  | sb | sh | sll | sllv | slt | slti | sltiu | sltu | sra | srav | srl | srlv
  | sub | subu | sw | swl | swr | xor | xori | syscall
  -- Legal but not simulated, and not supported by the architecture.
  | unimp | res
  deriving DecidableEq

/-- What bits 31:26 of an instruction stand for. -/
inductive OpField
  | op (opCode : OpCode)
  | special
  | bcond

/-- The formats of an instruction. -/
inductive Format
  | ifmt
  | jfmt
  | rfmt
  deriving DecidableEq

/-- The meaning of bits 31:26 of an instruction. -/
def opTable : List (OpField × Format) :=
  [(.special, .rfmt), (.bcond, .ifmt), (.op .j, .jfmt), (.op .jal, .jfmt),
    (.op .beq, .ifmt), (.op .bne, .ifmt), (.op .blez, .ifmt), (.op .bgtz, .ifmt),
    (.op .addi, .ifmt), (.op .addiu, .ifmt), (.op .slti, .ifmt), (.op .sltiu, .ifmt),
    (.op .andi, .ifmt), (.op .ori, .ifmt), (.op .xori, .ifmt), (.op .lui, .ifmt),
    (.op .unimp, .ifmt), (.op .unimp, .ifmt), (.op .unimp, .ifmt), (.op .unimp, .ifmt),
    (.op .res, .ifmt), (.op .res, .ifmt), (.op .res, .ifmt), (.op .res, .ifmt),
    (.op .res, .ifmt), (.op .res, .ifmt), (.op .res, .ifmt), (.op .res, .ifmt),
    (.op .res, .ifmt), (.op .res, .ifmt), (.op .res, .ifmt), (.op .res, .ifmt),
    (.op .lb, .ifmt), (.op .lh, .ifmt), (.op .lwl, .ifmt), (.op .lw, .ifmt),
    (.op .lbu, .ifmt), (.op .lhu, .ifmt), (.op .lwr, .ifmt), (.op .res, .ifmt),
    (.op .sb, .ifmt), (.op .sh, .ifmt), (.op .swl, .ifmt), (.op .sw, .ifmt),
    (.op .res, .ifmt), (.op .res, .ifmt), (.op .swr, .ifmt), (.op .res, .ifmt),
    (.op .unimp, .ifmt), (.op .unimp, .ifmt), (.op .unimp, .ifmt), (.op .unimp, .ifmt),
    (.op .res, .ifmt), (.op .res, .ifmt), (.op .res, .ifmt), (.op .res, .ifmt),
    (.op .unimp, .ifmt), (.op .unimp, .ifmt), (.op .unimp, .ifmt), (.op .unimp, .ifmt),
    (.op .res, .ifmt), (.op .res, .ifmt), (.op .res, .ifmt), (.op .res, .ifmt)]

/-- The meaning of the low six bits of an instruction whose high bits are special. -/
def specialTable : List OpCode :=
  [.sll, .res, .srl, .sra, .sllv, .res, .srlv, .srav,
    .jr, .jalr, .res, .res, .syscall, .unimp, .res, .res,
    .mfhi, .mthi, .mflo, .mtlo, .res, .res, .res, .res,
    .mult, .multu, .div, .divu, .res, .res, .res, .res,
    .add, .addu, .sub, .subu, .and, .or, .xor, .nor,
    .res, .res, .slt, .sltu, .res, .res, .res, .res,
    .res, .res, .res, .res, .res, .res, .res, .res,
    .res, .res, .res, .res, .res, .res, .res, .res]

/-- The meaning of bits 20:16 of an instruction whose high bits are a branch on a condition. -/
def branchOp (value : Word) : OpCode :=
  let i := value &&& 0x1f0000
  if i = 0 then .bltz
  else if i = 0x10000 then .bgez
  else if i = 0x100000 then .bltzal
  else if i = 0x110000 then .bgezal
  else .unimp

/-- A decoded instruction: the operation, three registers, and an immediate or target or shift. -/
structure Instruction where
  opCode : OpCode
  rs : Nat
  rt : Nat
  rd : Nat
  extra : Word
  deriving DecidableEq

/-- The field of an instruction that its format makes the extra one: immediates are signed. -/
def extraField (value : Word) : Format → Word
  | .ifmt =>
    let extra := value &&& 0xffff
    if extra &&& 0x8000 ≠ 0 then extra ||| 0xffff0000 else extra
  | .rfmt => (value >>> 6) &&& 0x1f
  | .jfmt => value &&& 0x3ffffff

/-- `Instruction::Decode`: decode the binary representation of an instruction. -/
def Instruction.decode (value : Word) : Instruction :=
  -- Both tables have an entry for each value of their six bits.
  let (field, format) := opTable.getD ((value >>> 26) &&& 0x3f).toNat (.op .res, .ifmt)
  { rs := ((value >>> 21) &&& 0x1f).toNat
    rt := ((value >>> 16) &&& 0x1f).toNat
    rd := ((value >>> 11) &&& 0x1f).toNat
    extra := extraField value format
    opCode :=
      match field with
      | .op opCode => opCode
      | .special => specialTable.getD (value &&& 0x3f).toNat .res
      | .bcond => branchOp value }

end Nachos
