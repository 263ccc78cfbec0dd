import Mathlib.Logic.Function.Basic
import Nachos.Theory.Run

/-! The context switch on the 80386: `SWITCH`, `ThreadRoot` and the stack of a new thread. -/

namespace Nachos

/-- The registers that the assembly code of the context switch uses. -/
inductive CpuRegister
  | eax | ebx | ecx | edx | esp | ebp | esi | edi
  deriving DecidableEq, Repr

/-- Where a register is kept, from the beginning of the thread object (`_ESP` to `_EDI`). -/
def CpuRegister.offset : CpuRegister → Nat
  | esp => 0
  | eax => 4
  | ebx => 8
  | ecx => 12
  | edx => 16
  | ebp => 20
  | esi => 24
  | edi => 28

/-- Where the program counter is kept, from the beginning of the thread object (`_PC`). -/
def pcOffset : Nat := 32

/--
The instructions of `switch.s`.

The operands of a move are in the order of the source, from the first to the second; a call carries
the address of the instruction after it.
-/
inductive CpuInstruction
  | move (source target : CpuRegister)
  | load (offset : Nat) (base target : CpuRegister)
  | store (source : CpuRegister) (offset : Nat) (base : CpuRegister)
  | loadSave (target : CpuRegister)
  | storeSave (source : CpuRegister)
  | push (source : CpuRegister)
  | pop (target : CpuRegister)
  | call (target : CpuRegister) (after : Nat)
  | ret
  deriving DecidableEq

/-- Where the symbols that the context switch names are in memory. -/
structure Symbols where
  eaxSave : Nat
  threadRoot : Nat
  threadBegin : Nat
  threadFinish : Nat

/-- The processor and the memory, as words at the addresses that are multiples of four. -/
structure Cpu where
  registers : CpuRegister → Nat
  memory : Nat → Nat
  pc : Nat

namespace Cpu

/-- Put a value into a register. -/
def set (cpu : Cpu) (register : CpuRegister) (value : Nat) : Cpu :=
  { cpu with registers := Function.update cpu.registers register value }

/-- The word at an address; the model has no words that are not aligned. -/
def read (cpu : Cpu) (address : Nat) : Option Nat :=
  if address % 4 = 0 then some (cpu.memory address) else none

/-- Put a word at an address. -/
def write (cpu : Cpu) (address value : Nat) : Option Cpu :=
  if address % 4 = 0 then
    some { cpu with memory := Function.update cpu.memory address value }
  else none

/-- Push a word on the stack, which grows down. -/
def push (cpu : Cpu) (value : Nat) : Option Cpu :=
  if 4 ≤ cpu.registers .esp then
    (cpu.set .esp (cpu.registers .esp - 4)).write (cpu.registers .esp - 4) value
  else none

/-- Execute one instruction; which one comes next is up to the code that it is part of. -/
def exec (symbols : Symbols) (cpu : Cpu) : CpuInstruction → Option Cpu
  | .move source target => some (cpu.set target (cpu.registers source))
  | .load offset base target => do
    let value ← cpu.read (cpu.registers base + offset)
    return cpu.set target value
  | .store source offset base => cpu.write (cpu.registers base + offset) (cpu.registers source)
  | .loadSave target => do
    let value ← cpu.read symbols.eaxSave
    return cpu.set target value
  | .storeSave source => cpu.write symbols.eaxSave (cpu.registers source)
  | .push source => cpu.push (cpu.registers source)
  | .pop target => do
    let value ← cpu.read (cpu.registers .esp)
    return (cpu.set .esp (cpu.registers .esp + 4)).set target value
  | .call target after => do
    let pushed ← cpu.push after
    return { pushed with pc := cpu.registers target }
  | .ret => do
    let value ← cpu.read (cpu.registers .esp)
    return { cpu.set .esp (cpu.registers .esp + 4) with pc := value }

end Cpu

/-- The first half of `SWITCH`: keep the state of the old thread in its object. -/
def switchSave : List CpuInstruction :=
  [.storeSave .eax,
    .load 4 .esp .eax,
    .store .ebx (CpuRegister.offset .ebx) .eax,
    .store .ecx (CpuRegister.offset .ecx) .eax,
    .store .edx (CpuRegister.offset .edx) .eax,
    .store .esi (CpuRegister.offset .esi) .eax,
    .store .edi (CpuRegister.offset .edi) .eax,
    .store .ebp (CpuRegister.offset .ebp) .eax,
    .store .esp (CpuRegister.offset .esp) .eax,
    .loadSave .ebx,
    .store .ebx (CpuRegister.offset .eax) .eax,
    .load 0 .esp .ebx,
    .store .ebx pcOffset .eax]

/-- The second half of `SWITCH`: take the state of the new thread from its object. -/
def switchRestore : List CpuInstruction :=
  [.load 8 .esp .eax,
    .load (CpuRegister.offset .eax) .eax .ebx,
    .storeSave .ebx,
    .load (CpuRegister.offset .ebx) .eax .ebx,
    .load (CpuRegister.offset .ecx) .eax .ecx,
    .load (CpuRegister.offset .edx) .eax .edx,
    .load (CpuRegister.offset .esi) .eax .esi,
    .load (CpuRegister.offset .edi) .eax .edi,
    .load (CpuRegister.offset .ebp) .eax .ebp,
    .load (CpuRegister.offset .esp) .eax .esp,
    .load pcOffset .eax .eax,
    .store .eax 4 .esp,
    .loadSave .eax,
    .ret]

/-- `SWITCH`: from one thread to another. -/
def switchCode : List CpuInstruction := switchSave ++ switchRestore

/-- `ThreadRoot`: start up, do the work, and finish; each call is followed by its return address. -/
def threadRootCode (begun worked finished : Nat) : List CpuInstruction :=
  [.push .ebp,
    .move .esp .ebp,
    .push .edx,
    .call .ecx begun,
    .call .esi worked,
    .call .edi finished,
    .move .ebp .esp,
    .pop .ebp,
    .ret]

/-- What the functions that are called do: the state in which they return, if they do. -/
abbrev Callee : Type := Cpu → Option Cpu

/-- Run code that calls functions, with the state at the entry of each function that it calls. -/
def runCode (symbols : Symbols) (callee : Callee) :
    List CpuInstruction → Cpu → List Cpu × Option Cpu
  | [], cpu => ([], some cpu)
  | .call target after :: rest, cpu =>
    match cpu.exec symbols (.call target after) with
    | none => ([], none)
    | some entry =>
      match callee entry with
      | none => ([entry], none)
      | some back =>
        let (calls, last) := runCode symbols callee rest back
        (entry :: calls, last)
  | instruction :: rest, cpu =>
    match cpu.exec symbols instruction with
    | none => ([], none)
    | some next => runCode symbols callee rest next

/-- `StackSize`, in words. -/
def stackSize : Nat := 8 * 1024

/-- `STACK_FENCEPOST`, at the end that the stack grows to. -/
def stackFencepost : Nat := 0xdedbeef

/-- Where a thread has its object, and where its stack begins and ends. -/
structure ThreadPlace where
  object : Nat
  stack : Nat
  stackEnd : Nat

namespace ThreadPlace

/-- The address of the field `stackTop`, which is the first of a thread. -/
def stackTop (place : ThreadPlace) : Nat := place.object

/-- The address of an entry of the array `machineState`, which comes after `stackTop`. -/
def machineState (place : ThreadPlace) (index : Nat) : Nat := place.object + 4 + 4 * index

end ThreadPlace

/-- `PCState`. -/
def pcState : Nat := pcOffset / 4 - 1

/-- `StartupPCState`. -/
def startupPCState : Nat := CpuRegister.offset .ecx / 4 - 1

/-- `InitialPCState`. -/
def initialPCState : Nat := CpuRegister.offset .esi / 4 - 1

/-- `InitialArgState`. -/
def initialArgState : Nat := CpuRegister.offset .edx / 4 - 1

/-- `WhenDonePCState`. -/
def whenDonePCState : Nat := CpuRegister.offset .edi / 4 - 1

/-- `StackAllocate`: the stack and the registers with which `SWITCH` first comes to a thread. -/
def stackAllocate (symbols : Symbols) (place : ThreadPlace) (func arg : Nat) (cpu : Cpu) :
    Option Cpu := do
  -- Four words from the end of the array, and then one more for the return address of `SWITCH`.
  let stackTop := place.stack + 4 * (stackSize - 4) - 4
  let cpu ← cpu.write stackTop symbols.threadRoot
  let cpu ← cpu.write place.stackTop stackTop
  let cpu ← cpu.write place.stack stackFencepost
  let cpu ← cpu.write (place.machineState pcState) symbols.threadRoot
  let cpu ← cpu.write (place.machineState startupPCState) symbols.threadBegin
  let cpu ← cpu.write (place.machineState initialPCState) func
  let cpu ← cpu.write (place.machineState initialArgState) arg
  cpu.write (place.machineState whenDonePCState) symbols.threadFinish

/-- The threads with their places, the thread that runs, and the processor. -/
structure SwitchSystem where
  place : Nat → Option ThreadPlace
  currentThread : Nat
  cpu : Cpu

/-- What the processor does: the code of the running thread, and its work on threads. -/
inductive SwitchEvent
  | execute (cpu : Cpu)
  | fork (thread : Nat) (place : ThreadPlace) (func arg : Nat)
  | switch (nextThread : Nat) (after : Nat)
  | delete (thread : Nat)

namespace SwitchSystem

/-- The first thread, on a stack that it has from the host. -/
def start (place : ThreadPlace) (cpu : Cpu) : SwitchSystem where
  place := Function.update (fun _ => none) 0 (some place)
  currentThread := 0
  cpu := cpu

/-- The call `SWITCH(oldThread, nextThread)`: its arguments, and the address of what follows. -/
def enterSwitch (oldThread nextThread after : Nat) (cpu : Cpu) : Option Cpu := do
  let cpu ← cpu.push nextThread
  let cpu ← cpu.push oldThread
  cpu.push after

/-- One step of the system. -/
def step (symbols : Symbols) (sys : SwitchSystem) : SwitchEvent → Option SwitchSystem
  | .execute cpu => some { sys with cpu := cpu }
  | .fork thread place func arg =>
    if (sys.place thread).isSome then none
    else do
      let cpu ← stackAllocate symbols place func arg sys.cpu
      return { sys with place := Function.update sys.place thread (some place), cpu := cpu }
  | .switch nextThread after => do
    let old ← sys.place sys.currentThread
    let next ← sys.place nextThread
    let entry ← enterSwitch old.object next.object after sys.cpu
    let cpu ← replay (Cpu.exec symbols) entry switchCode
    return { sys with currentThread := nextThread, cpu := cpu }
  | .delete thread =>
    if thread = sys.currentThread then none
    else some { sys with place := Function.update sys.place thread none }

end SwitchSystem

end Nachos
