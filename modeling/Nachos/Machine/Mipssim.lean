import Nachos.Machine.Instruction
import Nachos.Machine.Translate

/-! The simulated MIPS processor: its registers, its exceptions, and one instruction at a time. -/

namespace Nachos

/-- Number of general purpose registers. -/
abbrev numGPRegs : Nat := 32

/-- The register that holds the user's stack pointer. -/
abbrev stackReg : Nat := 29

/-- The register that calls save their return address in. -/
abbrev r31 : Nat := 31

/-- The high half of a product, or the remainder of a division. -/
abbrev hiReg : Nat := 32

/-- The low half of a product, or the quotient of a division. -/
abbrev loReg : Nat := 33

/-- The current program counter. -/
abbrev pcReg : Nat := 34

/-- The next program counter, for the branch delay. -/
abbrev nextPCReg : Nat := 35

/-- The previous program counter, for debugging. -/
abbrev prevPCReg : Nat := 36

/-- The register that a delayed load is for. -/
abbrev loadReg : Nat := 37

/-- The value that a delayed load has for its register. -/
abbrev loadValueReg : Nat := 38

/-- The failing virtual address of an exception. -/
abbrev badVAddrReg : Nat := 39

/-- Number of registers in all. -/
abbrev numTotalRegs : Nat := 40

/-- The reasons for a trap to the kernel. -/
inductive MachineException
  | syscallException
  | overflowException
  | illegalInstrException
  | memoryException (which : ExceptionType)
  deriving DecidableEq

/-- The number of the system call that adds. -/
abbrev scAdd : Word := 42

/-- The bit that is set in negative numbers. -/
abbrev signBit : Word := 0x80000000

/-- Is the number negative, as a signed one? -/
abbrev negative (value : Word) : Prop := value &&& signBit ≠ 0

/-- A number of instructions, as a number of bytes. -/
def indexToAddr (index : Word) : Word := index <<< 2

/--
The loop of `Mult`, with so many turns left, `a` being what is left of one factor.

It answers the high and the low word of the product.
-/
def multLoop : Nat → Word → Word → Word → Word → Word → Word × Word
  | 0, _, _, _, hi, lo => (hi, lo)
  | turns + 1, a, bHi, bLo, hi, lo =>
    let odd := a &&& 1 ≠ 0
    let sum := lo + bLo
    -- The sum is below one of its terms when there is a carry out of the low bits.
    let carry : Word := if sum < bLo then 1 else 0
    let hi := if odd then hi + carry + bHi else hi
    let lo := if odd then sum else lo
    if odd ∧ a &&& 0xfffffffe = 0 then (hi, lo)
    else
      let top : Word := if bLo &&& 0x80000000 ≠ 0 then 1 else 0
      -- The factor is an int, and so keeps its sign when it is shifted.
      multLoop turns (a.sshiftRight 1) (bHi <<< 1 ||| top) (bLo <<< 1) hi lo

/-- `Mult`: the high and the low word of a product. -/
def mult (a b : Word) (signedArith : Bool) : Word × Word :=
  if a = 0 ∨ b = 0 then (0, 0)
  else
    -- The sign is worked out first, and everything made positive.
    let negateA := signedArith && a.slt 0
    let negateB := signedArith && b.slt 0
    let a := if negateA then -a else a
    let b := if negateB then -b else b
    let (hi, lo) := multLoop 32 a 0 b 0 0
    if negateA ^^ negateB then
      let lo := ~~~lo + 1
      (if lo = 0 then ~~~hi + 1 else ~~~hi, lo)
    else (hi, lo)

/-- The simulated machine: its registers, and the memory behind its translation. -/
structure Machine where
  registers : Nat → Word
  kernel : VmKernel

namespace Machine

/-- Change a register. -/
def write (machine : Machine) (num : Nat) (value : Word) : Machine :=
  { machine with registers := Function.update machine.registers num value }

/-- `DelayedLoad`: carry out the pending load, and leave another one pending. -/
def delayedLoad (machine : Machine) (nextReg : Nat) (nextValue : Word) : Machine :=
  let target := (machine.registers loadReg).toNat
  let machine := machine.write target (machine.registers loadValueReg)
  let machine := machine.write loadReg (BitVec.ofNat 32 nextReg)
  let machine := machine.write loadValueReg nextValue
  machine.write 0 0

/-- `RaiseException`, up to the exception handler. -/
def raiseException (machine : Machine) (badVAddr : Word) : Machine :=
  (machine.write badVAddrReg badVAddr).delayedLoad 0 0

/-- The end of the system call that adds: its result, and the program counters after it. -/
def sysAdd (machine : Machine) : Machine :=
  let machine := machine.write 2 (machine.registers 4 + machine.registers 5)
  let machine := machine.write prevPCReg (machine.registers pcReg)
  let machine := machine.write pcReg (machine.registers pcReg + 4)
  machine.write nextPCReg (machine.registers pcReg + 4)

/--
`ExceptionHandler`, called when the clock shows `now`.

Nothing stands for the end of the simulation: a halt, or an exception that is not expected.
-/
def exceptionHandler (machine : Machine) (now : Int) : MachineException → Option Machine
  | .syscallException => if machine.registers 2 = scAdd then some machine.sysAdd else none
  | .memoryException .pageFaultException => do
    let vpn := (machine.registers badVAddrReg).toNat / pageSize
    let kernel ← machine.kernel.pageFaultHandler now vpn
    return { machine with kernel }
  | _ => none

/--
The start of `ReadMem` and `WriteMem`: the physical address, or the exception that was raised.

After any exception but a page fault the caller gives up, with the handler still to be called.
-/
def locate (machine : Machine) (now : Int) (addr : Word) (size : Nat) (writing : Bool) :
    Option (Except MachineException Nat × Machine) := do
  let (found, kernel) ← machine.kernel.translate addr size writing
  let machine := { machine with kernel }
  match found with
  | .ok physAddr => return (.ok physAddr.toNat, machine)
  | .error .pageFaultException =>
    let faulted := .memoryException .pageFaultException
    let machine ← (machine.raiseException addr).exceptionHandler now faulted
    let (found, kernel) ← machine.kernel.translate addr size writing
    match found with
    | .ok physAddr => return (.ok physAddr.toNat, { machine with kernel })
    -- The second exception is not looked at, and the physical address was never set.
    | .error _ => none
  | .error which => return (.error (.memoryException which), machine.raiseException addr)

/-- `ReadMem`: the value, or the exception that was raised. -/
def readMem (machine : Machine) (now : Int) (addr : Word) (size : Nat) :
    Option (Except MachineException Word × Machine) := do
  match ← machine.locate now addr size false with
  | (.ok physicalAddress, machine) =>
    let value ← VmKernel.valueOf (machine.kernel.mainMemory.slice physicalAddress size)
    return (.ok (BitVec.ofInt 32 value), machine)
  | (.error which, machine) => return (.error which, machine)

/-- `WriteMem`: nothing, or the exception that was raised. -/
def writeMem (machine : Machine) (now : Int) (addr : Word) (size : Nat) (value : Word) :
    Option (Except MachineException Unit × Machine) := do
  match ← machine.locate now addr size true with
  | (.ok physicalAddress, machine) =>
    let mainMemory := machine.kernel.mainMemory.store physicalAddress (leBytes size value.toNat)
    return (.ok (), { machine with kernel := { machine.kernel with mainMemory } })
  | (.error which, machine) => return (.error which, machine)

/-- How the switch of `OneInstruction` ends. -/
inductive Executed
  -- The instruction is done, but for the delayed load and the program counters.
  | finished (machine : Machine) (pcAfter : Word) (nextLoadReg : Nat) (nextLoadValue : Word)
  -- An exception was raised, whose handler is still to be called.
  | trapped (which : MachineException) (machine : Machine)

/-- An instruction that is done and loads nothing. -/
def done (machine : Machine) (pcAfter : Word) : Option Executed :=
  some (.finished machine pcAfter 0 0)

/-- An instruction that raises an exception. -/
def trap (machine : Machine) (which : MachineException) (badVAddr : Word) : Option Executed :=
  some (.trapped which (machine.raiseException badVAddr))

/-- Go on with what `ReadMem` reads, unless that raises an exception. -/
def reading (machine : Machine) (now : Int) (addr : Word) (size : Nat)
    (rest : Word → Machine → Option Executed) : Option Executed := do
  match ← machine.readMem now addr size with
  | (.ok value, machine) => rest value machine
  | (.error which, machine) => some (.trapped which machine)

/-- Be done with what `WriteMem` writes, unless that raises an exception. -/
def writing (machine : Machine) (now : Int) (addr : Word) (size : Nat) (value pcAfter : Word) :
    Option Executed := do
  match ← machine.writeMem now addr size value with
  | (.ok (), machine) => machine.done pcAfter
  | (.error which, machine) => some (.trapped which machine)

/-- What a load that merges finds in its register: the value of a load that is still pending. -/
def merged (machine : Machine) (rt : Nat) : Word :=
  if (machine.registers loadReg).toNat = rt then machine.registers loadValueReg
  else machine.registers rt

/-- The word that `LWL` loads, from the word in memory and the one in the register. -/
def loadLeft (byte value old : Word) : Word :=
  if 3 - byte = 0 then value
  else if 3 - byte = 1 then (old &&& 0xff) ||| (value <<< 8)
  else if 3 - byte = 2 then (old &&& 0xffff) ||| (value <<< 16)
  else (old &&& 0xffffff) ||| (value <<< 24)

/-- The word that `LWR` loads, from the word in memory and the one in the register. -/
def loadRight (byte value old : Word) : Word :=
  if 3 - byte = 0 then (old &&& 0xffffff00) ||| (value.sshiftRight 24 &&& 0xff)
  else if 3 - byte = 1 then (old &&& 0xffff0000) ||| (value.sshiftRight 16 &&& 0xffff)
  else if 3 - byte = 2 then (old &&& 0xff000000) ||| (value.sshiftRight 8 &&& 0xffffff)
  else value

/-- The word that `SWL` stores, from the word in memory and the one in the register. -/
def storeLeft (byte value held : Word) : Word :=
  if 3 - byte = 0 then held
  else if 3 - byte = 1 then (value &&& 0xff000000) ||| (held.sshiftRight 8 &&& 0xffffff)
  else if 3 - byte = 2 then (value &&& 0xffff0000) ||| (held.sshiftRight 16 &&& 0xffff)
  else (value &&& 0xffffff00) ||| (held.sshiftRight 24 &&& 0xff)

/-- The word that `SWR` stores, from the word in memory and the one in the register. -/
def storeRight (byte value held : Word) : Word :=
  if 3 - byte = 0 then (value &&& 0xffffff) ||| (held <<< 24)
  else if 3 - byte = 1 then (value &&& 0xffff) ||| (held <<< 16)
  else if 3 - byte = 2 then (value &&& 0xff) ||| (held <<< 8)
  else held

/-- The two least significant bits of an address. -/
def byteOf (tmp : Word) : Word := tmp &&& 0x3

/-- `LB` and `LBU`, `LH` and `LHU`: extend the sign of what was read, or mask it off. -/
def extended (value sign mask : Word) (signed : Bool) : Word :=
  if value &&& sign ≠ 0 ∧ signed then value ||| ~~~mask else value &&& mask

/-- Be done with a load, which is left pending. -/
def loading (machine : Machine) (pcAfter : Word) (rt : Nat) (value : Word) : Option Executed :=
  some (.finished machine pcAfter rt value)

/-- A branch to the target if the condition holds. -/
def branch (machine : Machine) (condition : Prop) [Decidable condition] (extra pcAfter : Word) :
    Option Executed :=
  machine.done
    (if condition then machine.registers nextPCReg + indexToAddr extra else pcAfter)

/-- A store of part of a register: the word around the address is read, merged and written. -/
def merging (machine : Machine) (now : Int) (tmp : Word) (rt : Nat) (pcAfter : Word)
    (merge : Word → Word → Word → Word) : Option Executed :=
  let byte := byteOf tmp
  machine.reading now (tmp - byte) 4 fun value machine =>
    machine.writing now (tmp - byte) 4 (merge byte value (machine.registers rt)) pcAfter

/-- The switch of `OneInstruction`, called when the clock shows `now`. -/
def execute (machine : Machine) (now : Int) (instr : Instruction) : Option Executed :=
  let pcAfter := machine.registers nextPCReg + 4
  let rs := machine.registers instr.rs
  let rt := machine.registers instr.rt
  match instr.opCode with
  | .add =>
    let sum := rs + rt
    if ¬ negative (rs ^^^ rt) ∧ negative (rs ^^^ sum) then machine.trap .overflowException 0
    else (machine.write instr.rd sum).done pcAfter
  | .addi =>
    let sum := rs + instr.extra
    if ¬ negative (rs ^^^ instr.extra) ∧ negative (instr.extra ^^^ sum) then
      machine.trap .overflowException 0
    else (machine.write instr.rt sum).done pcAfter
  | .addiu => (machine.write instr.rt (rs + instr.extra)).done pcAfter
  | .addu => (machine.write instr.rd (rs + rt)).done pcAfter
  | .and => (machine.write instr.rd (rs &&& rt)).done pcAfter
  | .andi => (machine.write instr.rt (rs &&& (instr.extra &&& 0xffff))).done pcAfter
  | .beq => machine.branch (rs = rt) instr.extra pcAfter
  | .bgezal =>
    -- The return address is written first, so the condition can be about it.
    let machine := machine.write r31 (machine.registers nextPCReg + 4)
    machine.branch (¬ negative (machine.registers instr.rs)) instr.extra pcAfter
  | .bgez => machine.branch (¬ negative rs) instr.extra pcAfter
  | .bgtz => machine.branch (BitVec.slt 0 rs) instr.extra pcAfter
  | .blez => machine.branch (BitVec.sle rs 0) instr.extra pcAfter
  | .bltzal =>
    let machine := machine.write r31 (machine.registers nextPCReg + 4)
    machine.branch (negative (machine.registers instr.rs)) instr.extra pcAfter
  | .bltz => machine.branch (negative rs) instr.extra pcAfter
  | .bne => machine.branch (rs ≠ rt) instr.extra pcAfter
  | .div =>
    if rt = 0 then ((machine.write loReg 0).write hiReg 0).done pcAfter
    -- The quotient of the least int by -1 does not fit, and stops the host.
    else if rs = signBit ∧ rt = -1 then none
    else ((machine.write loReg (rs.sdiv rt)).write hiReg (rs.srem rt)).done pcAfter
  | .divu =>
    if rt = 0 then ((machine.write loReg 0).write hiReg 0).done pcAfter
    else ((machine.write loReg (rs / rt)).write hiReg (rs % rt)).done pcAfter
  | .jal =>
    (machine.write r31 (machine.registers nextPCReg + 4)).done
      (pcAfter &&& 0xf0000000 ||| indexToAddr instr.extra)
  | .j => machine.done (pcAfter &&& 0xf0000000 ||| indexToAddr instr.extra)
  | .jalr =>
    -- The return address is written first, so the target can be that address.
    let machine := machine.write instr.rd (machine.registers nextPCReg + 4)
    machine.done (machine.registers instr.rs)
  | .jr => machine.done rs
  | .lb =>
    machine.reading now (rs + instr.extra) 1 fun value machine =>
      machine.loading pcAfter instr.rt (extended value 0x80 0xff true)
  | .lbu =>
    machine.reading now (rs + instr.extra) 1 fun value machine =>
      machine.loading pcAfter instr.rt (extended value 0x80 0xff false)
  | .lh =>
    let tmp := rs + instr.extra
    if tmp &&& 0x1 ≠ 0 then machine.trap (.memoryException .addressErrorException) tmp
    else
      machine.reading now tmp 2 fun value machine =>
        machine.loading pcAfter instr.rt (extended value 0x8000 0xffff true)
  | .lhu =>
    let tmp := rs + instr.extra
    if tmp &&& 0x1 ≠ 0 then machine.trap (.memoryException .addressErrorException) tmp
    else
      machine.reading now tmp 2 fun value machine =>
        machine.loading pcAfter instr.rt (extended value 0x8000 0xffff false)
  | .lui => (machine.write instr.rt (instr.extra <<< 16)).done pcAfter
  | .lw =>
    let tmp := rs + instr.extra
    if tmp &&& 0x3 ≠ 0 then machine.trap (.memoryException .addressErrorException) tmp
    else
      machine.reading now tmp 4 fun value machine => machine.loading pcAfter instr.rt value
  | .lwl =>
    let tmp := rs + instr.extra
    machine.reading now (tmp - byteOf tmp) 4 fun value machine =>
      machine.loading pcAfter instr.rt (loadLeft (byteOf tmp) value (machine.merged instr.rt))
  | .lwr =>
    let tmp := rs + instr.extra
    machine.reading now (tmp - byteOf tmp) 4 fun value machine =>
      machine.loading pcAfter instr.rt (loadRight (byteOf tmp) value (machine.merged instr.rt))
  | .mfhi => (machine.write instr.rd (machine.registers hiReg)).done pcAfter
  | .mflo => (machine.write instr.rd (machine.registers loReg)).done pcAfter
  | .mthi => (machine.write hiReg rs).done pcAfter
  | .mtlo => (machine.write loReg rs).done pcAfter
  | .mult =>
    let (hi, lo) := Nachos.mult rs rt true
    ((machine.write hiReg hi).write loReg lo).done pcAfter
  | .multu =>
    let (hi, lo) := Nachos.mult rs rt false
    ((machine.write hiReg hi).write loReg lo).done pcAfter
  | .nor => (machine.write instr.rd (~~~(rs ||| rt))).done pcAfter
  | .or => (machine.write instr.rd (rs ||| rt)).done pcAfter
  | .ori => (machine.write instr.rt (rs ||| (instr.extra &&& 0xffff))).done pcAfter
  | .sb => machine.writing now (rs + instr.extra) 1 rt pcAfter
  | .sh => machine.writing now (rs + instr.extra) 2 rt pcAfter
  | .sll => (machine.write instr.rd (rt <<< instr.extra)).done pcAfter
  | .sllv => (machine.write instr.rd (rt <<< (rs &&& 0x1f))).done pcAfter
  | .slt => (machine.write instr.rd (if rs.slt rt then 1 else 0)).done pcAfter
  | .slti => (machine.write instr.rt (if rs.slt instr.extra then 1 else 0)).done pcAfter
  | .sltiu => (machine.write instr.rt (if rs < instr.extra then 1 else 0)).done pcAfter
  | .sltu => (machine.write instr.rd (if rs < rt then 1 else 0)).done pcAfter
  | .sra => (machine.write instr.rd (rt.sshiftRight instr.extra.toNat)).done pcAfter
  | .srav => (machine.write instr.rd (rt.sshiftRight (rs &&& 0x1f).toNat)).done pcAfter
  -- The logical shifts go through an int as well, and so shift the sign in.
  | .srl => (machine.write instr.rd (rt.sshiftRight instr.extra.toNat)).done pcAfter
  | .srlv => (machine.write instr.rd (rt.sshiftRight (rs &&& 0x1f).toNat)).done pcAfter
  | .sub =>
    let diff := rs - rt
    if negative (rs ^^^ rt) ∧ negative (rs ^^^ diff) then machine.trap .overflowException 0
    else (machine.write instr.rd diff).done pcAfter
  | .subu => (machine.write instr.rd (rs - rt)).done pcAfter
  | .sw => machine.writing now (rs + instr.extra) 4 rt pcAfter
  | .swl => machine.merging now (rs + instr.extra) instr.rt pcAfter storeLeft
  | .swr => machine.merging now (rs + instr.extra) instr.rt pcAfter storeRight
  | .syscall => machine.trap .syscallException 0
  | .xor => (machine.write instr.rd (rs ^^^ rt)).done pcAfter
  | .xori => (machine.write instr.rt (rs ^^^ (instr.extra &&& 0xffff))).done pcAfter
  | .res => machine.trap .illegalInstrException 0
  | .unimp => machine.trap .illegalInstrException 0
  -- The default case is an assertion that fails.
  | .rfe => none

/-- The fetch and the switch of `OneInstruction`. -/
def fetchExecute (machine : Machine) (now : Int) : Option Executed :=
  machine.reading now (machine.registers pcReg) 4 fun raw machine =>
    machine.execute now (.decode raw)

/-- Advance the program counters. -/
def advance (machine : Machine) (pcAfter : Word) : Machine :=
  let machine := machine.write prevPCReg (machine.registers pcReg)
  let machine := machine.write pcReg (machine.registers nextPCReg)
  machine.write nextPCReg pcAfter

/-- `OneInstruction`, together with the handler of an exception that ends it. -/
def oneInstruction (machine : Machine) (now : Int) : Option Machine := do
  match ← machine.fetchExecute now with
  | .finished machine pcAfter nextLoadReg nextLoadValue =>
    return (machine.delayedLoad nextLoadReg nextLoadValue).advance pcAfter
  | .trapped which machine => machine.exceptionHandler now which

/-- `AddrSpace::InitRegisters`: the registers of a program that starts, with so many pages. -/
def initRegisters (machine : Machine) (numPages : Nat) : Machine :=
  let machine := { machine with registers := fun _ => 0 }
  let machine := machine.write pcReg 0
  let machine := machine.write nextPCReg 4
  machine.write stackReg (BitVec.ofNat 32 (numPages * pageSize) - 16)

end Machine

/-- What happens to the machine while a user program runs. -/
inductive MachineEvent
  -- OneInstruction, called when the clock shows `now`.
  | instruction (now : Int)
  -- CheckIfDue, which finishes a delayed load before it calls an interrupt handler.
  | interrupt

/-- One event on the machine. -/
def Machine.step (machine : Machine) : MachineEvent → Option Machine
  | .instruction now => machine.oneInstruction now
  | .interrupt => some (machine.delayedLoad 0 0)

end Nachos
