import Nachos.Threads.Switch

/-! `SWITCH` returns to a thread as the thread left it, and comes to a new one in `ThreadRoot`. -/

namespace Nachos

namespace Cpu

variable {symbols : Symbols} {cpu : Cpu}

@[simp] theorem set_registers (register : CpuRegister) (value : Nat) (other : CpuRegister) :
    (cpu.set register value).registers other =
      if other = register then value else cpu.registers other :=
  Function.update_apply ..

@[simp] theorem set_memory (register : CpuRegister) (value : Nat) :
    (cpu.set register value).memory = cpu.memory :=
  rfl

@[simp] theorem set_pc (register : CpuRegister) (value : Nat) :
    (cpu.set register value).pc = cpu.pc :=
  rfl

/-- An aligned word can be read. -/
theorem read_aligned {address : Nat} (aligned : address % 4 = 0) :
    cpu.read address = some (cpu.memory address) :=
  if_pos aligned

/-- An aligned word can be written. -/
theorem write_aligned {address : Nat} (aligned : address % 4 = 0) (value : Nat) :
    cpu.write address value =
      some { cpu with memory := Function.update cpu.memory address value } :=
  if_pos aligned

/-- A push moves the stack pointer down, and writes where it then points. -/
theorem push_aligned (cpu : Cpu) (aligned : cpu.registers .esp % 4 = 0)
    (room : 4 ≤ cpu.registers .esp) (value : Nat) :
    ∃ pushed, cpu.push value = some pushed ∧
      pushed.registers = Function.update cpu.registers .esp (cpu.registers .esp - 4) ∧
      pushed.memory = Function.update cpu.memory (cpu.registers .esp - 4) value := by
  unfold push
  rw [if_pos room, write_aligned (by omega)]
  exact ⟨_, rfl, rfl, rfl⟩

end Cpu

namespace CpuRegister

/-- Every register has its own place in a thread. -/
theorem offset_injective : Function.Injective offset := by
  intro register other same
  cases register <;> cases other <;> simp [offset] at same ⊢

/-- The place of a register is a whole number of words from the beginning. -/
theorem offset_aligned (register : CpuRegister) : register.offset % 4 = 0 := by
  cases register <;> rfl

/-- The places of the registers come before the one of the program counter. -/
theorem offset_lt (register : CpuRegister) : register.offset < 32 := by
  cases register <;> simp [offset]

end CpuRegister

namespace ThreadPlace

/-- The words that `SWITCH` relies on while a thread does not run: its saved state and its stack. -/
def Owns (place : ThreadPlace) (address : Nat) : Prop :=
  (place.object ≤ address ∧ address < place.object + 36) ∨
    (place.stack ≤ address ∧ address < place.stackEnd)

/-- An address is not a thread's when it is outside of its object and of its stack. -/
theorem not_owns {place : ThreadPlace} {address : Nat} :
    ¬ place.Owns address ↔ (address < place.object ∨ place.object + 36 ≤ address) ∧
      (address < place.stack ∨ place.stackEnd ≤ address) := by
  unfold Owns
  omega

/-- A thread's object and stack are aligned, and apart from each other and from `_eax_save`. -/
structure Sound (symbols : Symbols) (place : ThreadPlace) : Prop where
  save : symbols.eaxSave % 4 = 0
  object : place.object % 4 = 0
  outside : ¬ place.Owns symbols.eaxSave
  apart : place.object + 36 ≤ place.stack ∨ place.stackEnd ≤ place.object

end ThreadPlace

/--
A thread that does not run is kept in memory so that `SWITCH` brings it back to a given state.

Of the stack, that state has what lies above the frame of the call of `SWITCH`.
-/
structure Suspended (memory : Nat → Nat) (place : ThreadPlace) (back : Cpu) : Prop where
  registers : ∀ register, register ≠ .esp →
    memory (place.object + register.offset) = back.registers register
  esp : memory place.object + 4 = back.registers .esp
  pc : memory (memory place.object) = back.pc
  aligned : memory place.object % 4 = 0
  above : place.stack ≤ memory place.object
  below : memory place.object + 8 ≤ place.stackEnd
  stack : ∀ address, back.registers .esp + 8 ≤ address → address < place.stackEnd →
    memory address = back.memory address

/-- A thread that does not run is kept as long as nobody writes into what it owns. -/
theorem Suspended.frame {memory other : Nat → Nat} {place : ThreadPlace} {back : Cpu}
    (suspended : Suspended memory place back)
    (same : ∀ address, place.Owns address → other address = memory address) :
    Suspended other place back := by
  -- The object is one of the places that the thread owns.
  have object : ∀ offset < 36, other (place.object + offset) = memory (place.object + offset) :=
    fun offset small => same _ (.inl ⟨by omega, by omega⟩)
  -- Everything else speaks of the stack pointer, and that is read from the object.
  have top : other place.object = memory place.object := object 0 (by omega)
  have := suspended.above
  have := suspended.below
  constructor
  -- The registers are kept in the object.
  case registers =>
    intro register differs
    rw [object _ (by cases register <;> simp [CpuRegister.offset])]
    exact suspended.registers register differs
  -- The stack pointer is kept there as well.
  case esp => rw [top, suspended.esp]
  -- The return address is on the stack.
  case pc =>
    rw [top, same _ (.inr ⟨by omega, by omega⟩)]
    exact suspended.pc
  -- The next three are about the stack pointer alone.
  case aligned => rw [top]; exact suspended.aligned
  case above => rw [top]; exact suspended.above
  case below => rw [top]; exact suspended.below
  case stack =>
    -- The stack of the thread lies above its stack pointer, and is its own as well.
    intro address low high
    have := suspended.esp
    rw [same _ (.inr ⟨by omega, high⟩)]
    exact suspended.stack address low high

namespace Cpu

variable {symbols : Symbols} {cpu : Cpu}

/-- A run of stores keeps each of its registers at its place in an object, and nothing else. -/
theorem replay_stores (symbols : Symbols) (registers : List CpuRegister) (cpu : Cpu)
    (aligned : cpu.registers .eax % 4 = 0) :
    ∃ after, replay (Cpu.exec symbols) cpu
        (registers.map fun register => .store register register.offset .eax) = some after ∧
      after.registers = cpu.registers ∧
      (∀ register ∈ registers,
        after.memory (cpu.registers .eax + register.offset) = cpu.registers register) ∧
      ∀ address, (∀ register ∈ registers, address ≠ cpu.registers .eax + register.offset) →
        after.memory address = cpu.memory address := by
  -- By induction on the registers: the first store, and then the others from where it ends.
  induction registers generalizing cpu with
  | nil => exact ⟨cpu, rfl, rfl, by simp, fun _ _ => rfl⟩
  | cons first rest ih =>
    -- The objects of threads are aligned, and so are the places of the registers in them.
    have place : (cpu.registers .eax + first.offset) % 4 = 0 := by
      have := first.offset_aligned
      omega
    have stored : cpu.exec symbols (.store first first.offset .eax) = some { cpu with
        memory := Function.update cpu.memory (cpu.registers .eax + first.offset)
          (cpu.registers first) } :=
      write_aligned place _
    obtain ⟨after, ran, same, kept, others⟩ := ih { cpu with
      memory := Function.update cpu.memory (cpu.registers .eax + first.offset)
        (cpu.registers first) } aligned
    -- What the first store kept is not written again.
    refine ⟨after, (replay_cons stored _).trans ran, same, fun register member => ?_,
      fun address apart => ?_⟩
    · by_cases later : register ∈ rest
      · exact kept register later
      · -- The later stores are for other registers, whose places are other ones.
        obtain rfl : register = first := by simpa [later] using member
        have apart : ∀ other ∈ rest, cpu.registers .eax + register.offset ≠
            cpu.registers .eax + other.offset := by
          intro other inside equal
          apply later
          rwa [CpuRegister.offset_injective (Nat.add_left_cancel equal)]
        exact (others _ apart).trans (Function.update_self ..)
    · -- An address apart from all the places is apart from the first one.
      rw [others _ fun register inside => apart register (List.mem_cons_of_mem _ inside)]
      exact Function.update_of_ne (apart first List.mem_cons_self) ..

/-- A run of loads takes each of its registers from its place in an object, and no others. -/
theorem replay_loads (symbols : Symbols) (registers : List CpuRegister) (cpu : Cpu)
    (aligned : cpu.registers .eax % 4 = 0) (pointer : .eax ∉ registers) :
    ∃ after, replay (Cpu.exec symbols) cpu
        (registers.map fun register => .load register.offset .eax register) = some after ∧
      after.memory = cpu.memory ∧
      (∀ register ∈ registers,
        after.registers register = cpu.memory (cpu.registers .eax + register.offset)) ∧
      ∀ register, register ∉ registers → after.registers register = cpu.registers register := by
  -- By induction on the registers: `eax` stays the pointer, since it is none of those loaded.
  induction registers generalizing cpu with
  | nil => exact ⟨cpu, rfl, rfl, by simp, fun _ _ => rfl⟩
  | cons first rest ih =>
    have differs : first ≠ .eax := fun equal => pointer (by simp [equal])
    have unread : (.eax : CpuRegister) ∉ rest := fun inside =>
      pointer (List.mem_cons_of_mem _ inside)
    have place : (cpu.registers .eax + first.offset) % 4 = 0 := by
      have := first.offset_aligned
      omega
    have loaded : cpu.exec symbols (.load first.offset .eax first) =
        some (cpu.set first (cpu.memory (cpu.registers .eax + first.offset))) := by
      simp [exec, read_aligned place]
    -- The first load leaves the pointer where the others look for it.
    have base : (cpu.set first (cpu.memory (cpu.registers .eax + first.offset))).registers .eax =
        cpu.registers .eax := by
      simp [differs.symm]
    obtain ⟨after, ran, same, taken, others⟩ := ih _ (by rw [base]; exact aligned) unread
    rw [base] at taken
    refine ⟨after, (replay_cons loaded _).trans ran, same, fun register member => ?_,
      fun register outside => ?_⟩
    · -- A register is loaded last where it stands last in the list.
      by_cases later : register ∈ rest
      · exact taken register later
      · obtain rfl : register = first := by simpa [later] using member
        rw [others _ later]
        simp
    · -- A register outside the list is neither the first nor one of the others.
      rw [List.mem_cons, not_or] at outside
      rw [others _ outside.2]
      simp [outside.1]

/-- The registers that `SWITCH` moves one after the other while `eax` points to a thread. -/
def movedRegisters : List CpuRegister := [.ebx, .ecx, .edx, .esi, .edi, .ebp, .esp]

/-- The first half of `SWITCH` is a run of stores, with what is needed for `eax` around it. -/
theorem switchSave_stores : switchSave = [.storeSave .eax, .load 4 .esp .eax] ++
    (movedRegisters.map (fun register => .store register register.offset .eax) ++
      [.loadSave .ebx, .store .ebx (CpuRegister.offset .eax) .eax, .load 0 .esp .ebx,
        .store .ebx pcOffset .eax]) :=
  rfl

/-- The second half of `SWITCH` is a run of loads, with what is needed for `eax` around it. -/
theorem switchRestore_loads : switchRestore =
    [.load 8 .esp .eax, .load (CpuRegister.offset .eax) .eax .ebx, .storeSave .ebx] ++
      (movedRegisters.map (fun register => .load register.offset .eax register) ++
        [.load pcOffset .eax .eax, .store .eax 4 .esp, .loadSave .eax, .ret]) :=
  rfl

/-- The first half of `SWITCH` keeps every register and the return address in the old thread. -/
theorem replay_switchSave (cpu : Cpu) {object : Nat} (save : symbols.eaxSave % 4 = 0)
    (esp : cpu.registers .esp % 4 = 0) (aligned : object % 4 = 0)
    (argument : cpu.memory (cpu.registers .esp + 4) = object)
    (apart : symbols.eaxSave < cpu.registers .esp ∨ cpu.registers .esp + 8 ≤ symbols.eaxSave)
    (outside : symbols.eaxSave < object ∨ object + 36 ≤ symbols.eaxSave)
    (frame : cpu.registers .esp < object ∨ object + 36 ≤ cpu.registers .esp) :
    ∃ after, replay (Cpu.exec symbols) cpu switchSave = some after ∧
      (∀ register, after.memory (object + register.offset) = cpu.registers register) ∧
      (∀ address, address ≠ symbols.eaxSave → (address < object ∨ object + 36 ≤ address) →
        after.memory address = cpu.memory address) ∧
      after.registers .esp = cpu.registers .esp := by
  -- `eax` is put aside, and then it has the address of the old thread.
  let pointed : Cpu := Cpu.set { cpu with
    memory := Function.update cpu.memory symbols.eaxSave (cpu.registers .eax) } .eax object
  -- The first two instructions only set up the pointer, and find the argument on the stack.
  have front : replay (Cpu.exec symbols) cpu [.storeSave .eax, .load 4 .esp .eax] =
      some pointed := by
    have argument' : Function.update cpu.memory symbols.eaxSave (cpu.registers .eax)
        (cpu.registers .esp + 4) = object := by
      rw [Function.update_of_ne (by omega), argument]
    simp [replay, exec, write_aligned save, read_aligned (show (cpu.registers .esp + 4) % 4 = 0 by
      omega), argument', pointed]
  have pointer : pointed.registers .eax = object := by simp [pointed]
  obtain ⟨stored, ran, registers, kept, others⟩ :=
    replay_stores symbols movedRegisters pointed (by rw [pointer]; exact aligned)
  rw [pointer] at kept others
  -- Whatever lies outside the object is as the first two instructions left it.
  have stays : ∀ address, (address < object ∨ object + 36 ≤ address) →
      stored.memory address = pointed.memory address := by
    intro address elsewhere
    apply others
    intro register _
    have := register.offset_lt
    omega
  -- The two words that are left go through `ebx`: the old `eax`, and the return address.
  have saved : stored.memory symbols.eaxSave = cpu.registers .eax := by
    rw [stays _ outside]
    simp [pointed]
  have top : stored.registers .esp = cpu.registers .esp := by
    rw [registers]
    simp [pointed]
  have base : stored.registers .eax = object := by rw [registers, pointer]
  -- The state at the end, written down whole.
  let after : Cpu := Cpu.set { stored with
    memory := Function.update (Function.update stored.memory (object + 4) (cpu.registers .eax))
      (object + 32) (stored.memory (cpu.registers .esp)) } .ebx (stored.memory (cpu.registers .esp))
  have rear : replay (Cpu.exec symbols) stored
      [.loadSave .ebx, .store .ebx (CpuRegister.offset .eax) .eax, .load 0 .esp .ebx,
        .store .ebx pcOffset .eax] = some after := by
    have unchanged : Function.update stored.memory (object + 4) (cpu.registers .eax)
        (cpu.registers .esp) = stored.memory (cpu.registers .esp) :=
      Function.update_of_ne (by omega) ..
    simp [replay, exec, read, write, base, top, saved, save, esp, aligned, Nat.add_mod, unchanged,
      CpuRegister.offset, pcOffset, after, set]
  refine ⟨after, ?_, fun register => ?_, fun address differs elsewhere => ?_, ?_⟩
  · -- The code is its three parts, one after the other.
    rw [switchSave_stores, replay_append front, replay_append ran, rear]
  · -- `eax` itself goes to its place at the end, and the other registers were stored in the middle.
    have small := register.offset_lt
    by_cases first : register = .eax
    · simp [first, after, CpuRegister.offset]
    · have place : register.offset ≠ 4 := fun equal =>
        first (CpuRegister.offset_injective (equal.trans (by rfl)))
      have moved : register ∈ movedRegisters := by
        cases register <;> simp [movedRegisters] at first ⊢
      simp only [after, set_memory]
      rw [Function.update_of_ne (by omega), Function.update_of_ne (by omega), kept register moved]
      simp [pointed, first]
  · -- Outside the object only `_eax_save` is written.
    simp only [after, set_memory]
    rw [Function.update_of_ne (by omega), Function.update_of_ne (by omega), stays _ elsewhere]
    simp [pointed, differs]
  · simp [after, top]

/-- The second half of `SWITCH` takes every register from the new thread, and returns there. -/
theorem replay_switchRestore {place : ThreadPlace} {back : Cpu} (sound : place.Sound symbols)
    (suspended : Suspended cpu.memory place back) (esp : cpu.registers .esp % 4 = 0)
    (argument : cpu.memory (cpu.registers .esp + 8) = place.object) :
    ∃ after, replay (Cpu.exec symbols) cpu switchRestore = some after ∧
      after.registers = back.registers ∧ after.pc = back.pc ∧
      ∀ address, address ≠ symbols.eaxSave → address ≠ back.registers .esp →
        after.memory address = cpu.memory address := by
  -- What the thread owns is in memory, and `_eax_save` is not part of it.
  obtain ⟨objectOutside, stackOutside⟩ := ThreadPlace.not_owns.mp sound.outside
  have above := suspended.above
  have below := suspended.below
  have aligned := suspended.aligned
  have save := sound.save
  have object := sound.object
  -- `eax` has the address of the new thread, and what `eax` will be is put aside.
  let pointed : Cpu := Cpu.set { Cpu.set cpu .eax place.object with
    memory := Function.update cpu.memory symbols.eaxSave (back.registers .eax) }
      .ebx (back.registers .eax)
  have front : replay (Cpu.exec symbols) cpu
      [.load 8 .esp .eax, .load (CpuRegister.offset .eax) .eax .ebx, .storeSave .ebx] =
        some pointed := by
    have kept := suspended.registers .eax (by simp)
    rw [CpuRegister.offset] at kept
    simp [replay, exec, read, write, save, esp, object, Nat.add_mod, argument, kept, pointed, set,
      CpuRegister.offset]
  have pointer : pointed.registers .eax = place.object := by simp [pointed]
  obtain ⟨loaded, ran, memory, taken, others⟩ :=
    replay_loads symbols movedRegisters pointed (by rw [pointer]; exact object)
      (by simp [movedRegisters])
  rw [pointer] at taken
  -- Putting `eax` aside leaves the object as it was.
  have inObject : ∀ offset < 36,
      pointed.memory (place.object + offset) = cpu.memory (place.object + offset) := by
    intro offset small
    simp only [pointed, set_memory]
    exact Function.update_of_ne (by omega) ..
  -- Every register but these two is taken straight from the object.
  have registers : ∀ register, register ≠ .eax → register ≠ .esp →
      loaded.registers register = back.registers register := by
    intro register first second
    have moved : register ∈ movedRegisters := by
      cases register <;> simp [movedRegisters] at first ⊢
    rw [taken register moved, inObject _ (by have := register.offset_lt; omega)]
    exact suspended.registers register second
  have top : loaded.registers .esp = cpu.memory place.object := by
    rw [taken .esp (by simp [movedRegisters])]
    exact inObject 0 (by omega)
  have base : loaded.registers .eax = place.object := by
    rw [others .eax (by simp [movedRegisters]), pointer]
  -- The return address goes over the first argument of the call, which `ret` does not look at.
  have saved : loaded.memory symbols.eaxSave = back.registers .eax := by
    rw [memory]
    simp [pointed]
  -- The top of the new stack has the address to return to.
  have stackTop : loaded.memory (cpu.memory place.object) = back.pc := by
    rw [memory, ← suspended.pc]
    simp only [pointed, set_memory]
    exact Function.update_of_ne (by omega) ..
  let after : Cpu := {
    registers := Function.update (Function.update loaded.registers .eax (back.registers .eax))
      .esp (cpu.memory place.object + 4)
    memory := Function.update loaded.memory (cpu.memory place.object + 4)
      (loaded.memory (place.object + pcOffset))
    pc := back.pc }
  -- The last four instructions write the argument slot, restore `eax` and return.
  have rear : replay (Cpu.exec symbols) loaded
      [.load pcOffset .eax .eax, .store .eax 4 .esp, .loadSave .eax, .ret] = some after := by
    have aside : Function.update loaded.memory (cpu.memory place.object + 4)
        (loaded.memory (place.object + 32)) symbols.eaxSave = back.registers .eax := by
      rw [Function.update_of_ne (by omega), saved]
    simp [replay, exec, read, write, base, top, save, object, aligned, Nat.add_mod, aside,
      stackTop, pcOffset, after, set]
  refine ⟨after, ?_, ?_, rfl, fun address differs elsewhere => ?_⟩
  · -- The code is its three parts, one after the other.
    rw [switchRestore_loads, replay_append front, replay_append ran, rear]
  · -- The stack pointer moves over the return address, and the other two ways are in `loaded`.
    funext register
    by_cases second : register = .esp
    · simpa [second, after] using suspended.esp
    · by_cases first : register = .eax
      · simp [first, after]
      · simpa [first, second, after] using registers register first second
  · -- Nothing else is written but `_eax_save` and the slot of the argument.
    rw [← suspended.esp] at elsewhere
    simp only [after]
    rw [Function.update_of_ne elsewhere, memory]
    simp [pointed, differs]

/-- The state in which a call of `SWITCH` returns: only its return address is off the stack. -/
def returning (cpu : Cpu) (after : Nat) : Cpu where
  registers := Function.update cpu.registers .esp (cpu.registers .esp - 8)
  memory := cpu.memory
  pc := after

@[simp] theorem returning_esp (cpu : Cpu) (after : Nat) :
    (cpu.returning after).registers .esp = cpu.registers .esp - 8 := by
  simp [returning]

theorem returning_registers {register : CpuRegister} (differs : register ≠ .esp) (after : Nat) :
    (cpu.returning after).registers register = cpu.registers register := by
  simp [returning, differs]

/-- A call of `SWITCH` has the address after it on the stack, and over that its two arguments. -/
theorem enterSwitch_frame (esp : cpu.registers .esp % 4 = 0) (room : 12 ≤ cpu.registers .esp)
    (oldThread nextThread after : Nat) :
    ∃ entry, SwitchSystem.enterSwitch oldThread nextThread after cpu = some entry ∧
      entry.registers = Function.update cpu.registers .esp (cpu.registers .esp - 12) ∧
      entry.memory (cpu.registers .esp - 12) = after ∧
      entry.memory (cpu.registers .esp - 8) = oldThread ∧
      entry.memory (cpu.registers .esp - 4) = nextThread ∧
      ∀ address, (address < cpu.registers .esp - 12 ∨ cpu.registers .esp ≤ address) →
        entry.memory address = cpu.memory address := by
  -- Three pushes: the new thread, the old thread, and the return address.
  obtain ⟨first, pushed, registers, memory⟩ := push_aligned cpu esp (by omega) nextThread
  have top : first.registers .esp = cpu.registers .esp - 4 := by simp [registers]
  obtain ⟨second, pushed', registers', memory'⟩ :=
    push_aligned first (by omega) (by omega) oldThread
  have top' : second.registers .esp = cpu.registers .esp - 8 := by
    rw [registers', Function.update_self]
    omega
  obtain ⟨entry, entered, entryRegisters, entryMemory⟩ :=
    push_aligned second (by omega) (by omega) after
  have here : cpu.registers .esp - 4 - 4 = cpu.registers .esp - 8 := by omega
  -- The addresses are those of the words below the stack pointer.
  have there : cpu.registers .esp - 8 - 4 = cpu.registers .esp - 12 := by omega
  rw [top, here] at memory' registers'
  rw [top', there] at entryMemory entryRegisters
  -- Each word is read back, since the later pushes go below it.
  refine ⟨entry, ?_, ?_, ?_, ?_, ?_, fun address elsewhere => ?_⟩
  · -- All three pushes go through.
    simp [SwitchSystem.enterSwitch, pushed, pushed', entered]
  · simp [entryRegisters, registers', registers]
  -- The words on the stack, and what is above them.
  all_goals
    simp (disch := omega) [entryMemory, memory', memory, Function.update_of_ne]

/-- The call of `SWITCH`, up to its half, keeps the old thread so that it comes back. -/
theorem replay_leave {old : ThreadPlace} (sound : old.Sound symbols) (next after : Nat)
    (esp : cpu.registers .esp % 4 = 0) (room : old.stack + 12 ≤ cpu.registers .esp)
    (inside : cpu.registers .esp ≤ old.stackEnd) :
    ∃ entry kept, SwitchSystem.enterSwitch old.object next after cpu = some entry ∧
      replay (Cpu.exec symbols) entry switchSave = some kept ∧
      Suspended kept.memory old (cpu.returning after) ∧
      (∀ address, address ≠ symbols.eaxSave → ¬ old.Owns address →
        kept.memory address = cpu.memory address) ∧
      kept.registers .esp % 4 = 0 ∧ kept.memory (kept.registers .esp + 8) = next := by
  -- The stack of the old thread is apart from its object and from `_eax_save`.
  obtain ⟨objectOutside, stackOutside⟩ := ThreadPlace.not_owns.mp sound.outside
  have apart := sound.apart
  obtain ⟨entry, entered, registers, atTop, argument, argument', elsewhere⟩ :=
    enterSwitch_frame esp (by omega) old.object next after
  have top : entry.registers .esp = cpu.registers .esp - 12 := by simp [registers]
  have second : cpu.registers .esp - 12 + 4 = cpu.registers .esp - 8 := by omega
  have third : cpu.registers .esp - 12 + 8 = cpu.registers .esp - 4 := by omega
  obtain ⟨kept, ran, saved, same, keptTop⟩ := replay_switchSave entry sound.save
    (by omega) sound.object (by rw [top, second]; exact argument) (by omega) (by omega) (by omega)
  -- The object now has the stack pointer of the entry.
  have savedTop : kept.memory old.object = cpu.registers .esp - 12 := by
    rw [← top, ← saved .esp]
    rfl
  refine ⟨entry, kept, entered, ran, ?_, fun address differs elsewhere' => ?_, by omega, ?_⟩
  · -- One field of what it means to be suspended after the other.
    constructor
    case registers =>
      intro register differs
      rw [saved, registers, returning_registers differs, Function.update_of_ne differs]
    case esp =>
      rw [savedTop, returning_esp]
      omega
    -- The return address was on top of the stack, and is not written over.
    case pc =>
      rw [savedTop, same _ (by omega) (by omega)]
      exact atTop
    case aligned => omega
    case above => omega
    case below => omega
    -- The stack above the call is not touched by the pushes or the stores.
    case stack =>
      intro address low high
      rw [returning_esp] at low
      rw [same _ (by omega) (by omega)]
      exact elsewhere _ (by omega)
  · -- An address that the thread does not own is none of those written.
    rw [ThreadPlace.not_owns] at elsewhere'
    rw [same _ differs (by omega)]
    exact elsewhere _ (by omega)
  · -- The second argument is still where `SWITCH` was called with it.
    rw [keptTop, top, third, same _ (by omega) (by omega)]
    exact argument'

end Cpu

namespace SwitchSystem

variable {symbols : Symbols} {sys next : SwitchSystem} {event : SwitchEvent} {thread : Nat}
  {back : Cpu}

/-- The threads have places of their own, and the running one has one. -/
structure Placed (symbols : Symbols) (sys : SwitchSystem) : Prop where
  running : ∃ place, sys.place sys.currentThread = some place
  sound : ∀ thread place, sys.place thread = some place → place.Sound symbols
  apart : ∀ thread place other place', sys.place thread = some place →
    sys.place other = some place' → thread ≠ other → ∀ address, place.Owns address →
      ¬ place'.Owns address

/-- A thread is kept in memory so that `SWITCH` brings it back to a given state. -/
def Waiting (sys : SwitchSystem) (thread : Nat) (back : Cpu) : Prop :=
  ∃ place, sys.place thread = some place ∧ Suspended sys.cpu.memory place back

/--
The running thread does what the context switch relies on.

Its code leaves alone what the other threads own, `new` gives memory that nobody has, and a call of
`SWITCH` is made with its stack inside its bounds.
-/
def Respects (symbols : Symbols) (sys : SwitchSystem) : SwitchEvent → Prop
  | .execute cpu => ∀ thread place, thread ≠ sys.currentThread → sys.place thread = some place →
      ∀ address, place.Owns address → cpu.memory address = sys.cpu.memory address
  | .fork _ place _ _ => place.Sound symbols ∧ place.stack % 4 = 0 ∧
      place.stackEnd = place.stack + 4 * stackSize ∧
      ∀ thread place', sys.place thread = some place' → ∀ address, place.Owns address →
        ¬ place'.Owns address
  | .switch _ _ => ∀ place, sys.place sys.currentThread = some place →
      sys.cpu.registers .esp % 4 = 0 ∧ place.stack + 12 ≤ sys.cpu.registers .esp ∧
      sys.cpu.registers .esp ≤ place.stackEnd
  | .delete _ => True

/-- What brings the running thread back once it has called `SWITCH`, and what brings back others. -/
def Promised (sys : SwitchSystem) (after thread : Nat) (back : Cpu) : Prop :=
  (thread = sys.currentThread ∧ back = sys.cpu.returning after) ∨
    (thread ≠ sys.currentThread ∧ sys.Waiting thread back)

/-- A thread is back: it has its registers, goes on where it left, and finds its stack. -/
structure Back (sys : SwitchSystem) (thread : Nat) (back : Cpu) : Prop where
  current : sys.currentThread = thread
  registers : sys.cpu.registers = back.registers
  pc : sys.cpu.pc = back.pc
  stack : ∀ place, sys.place thread = some place → ∀ address, back.registers .esp + 8 ≤ address →
    address < place.stackEnd → sys.cpu.memory address = back.memory address

/-- Halfway through `SWITCH` every thread is in memory, the old one as well as the new one. -/
theorem replay_half (placed : Placed symbols sys) {nextThread after : Nat}
    (respects : Respects symbols sys (.switch nextThread after)) {place : ThreadPlace}
    (found : sys.place sys.currentThread = some place) (nextPlace : ThreadPlace) :
    ∃ entry kept, enterSwitch place.object nextPlace.object after sys.cpu = some entry ∧
      replay (Cpu.exec symbols) entry switchSave = some kept ∧
      kept.registers .esp % 4 = 0 ∧
      kept.memory (kept.registers .esp + 8) = nextPlace.object ∧
      ∀ thread back, sys.Promised after thread back →
        ∃ place, sys.place thread = some place ∧ Suspended kept.memory place back := by
  -- The old thread calls with room on its stack.
  obtain ⟨aligned, room, inside⟩ := respects place found
  obtain ⟨entry, kept, entered, ran, suspended, same, top, argument⟩ :=
    Cpu.replay_leave (placed.sound _ _ found) nextPlace.object after aligned room inside
  refine ⟨entry, kept, entered, ran, top, argument, fun thread back promised => ?_⟩
  -- What is promised is that of the old thread, or of one that waits.
  rcases promised with ⟨rfl, rfl⟩ | ⟨other, waiting⟩
  · -- The thread that calls is the one that was just kept.
    exact ⟨place, found, suspended⟩
  · -- The old thread writes into what it owns, and into `_eax_save`, which nobody does.
    obtain ⟨otherPlace, otherFound, otherSuspended⟩ := waiting
    refine ⟨otherPlace, otherFound, otherSuspended.frame fun address owned => same _ ?_ ?_⟩
    · -- The word for `eax` is owned by nobody.
      intro save
      subst save
      exact (placed.sound _ _ otherFound).outside owned
    · -- What the other thread owns is not owned by the old one.
      exact placed.apart _ _ _ _ otherFound found other _ owned

/-- `SWITCH` goes through, brings the next thread back, and keeps all the others. -/
theorem step_switch (placed : Placed symbols sys) {nextThread after : Nat}
    (respects : Respects symbols sys (.switch nextThread after))
    (promised : sys.Promised after nextThread back) :
    ∃ next, sys.step symbols (.switch nextThread after) = some next ∧ next.place = sys.place ∧
      next.Back nextThread back ∧
      ∀ thread other, thread ≠ nextThread → sys.Promised after thread other →
        next.Waiting thread other := by
  -- The running thread has a place, and so has the next one: it runs, or it is kept.
  obtain ⟨place, found⟩ := placed.running
  have known : ∃ nextPlace, sys.place nextThread = some nextPlace := by
    rcases promised with ⟨rfl, -⟩ | ⟨-, nextPlace, nextFound, -⟩
    · exact ⟨place, found⟩
    · exact ⟨nextPlace, nextFound⟩
  obtain ⟨nextPlace, nextFound⟩ := known
  -- The call is two runs of code, and halfway both threads are in memory.
  obtain ⟨entry, kept, entered, saved, top, argument, halfway⟩ :=
    replay_half placed respects found nextPlace
  obtain ⟨same, sameFound, suspended⟩ := halfway nextThread back promised
  cases nextFound.symm.trans sameFound
  obtain ⟨cpu, restored, registers, pc, memory⟩ :=
    Cpu.replay_switchRestore (placed.sound _ _ nextFound) suspended top argument
  -- Put together, they are the code of `SWITCH`.
  have ran : replay (Cpu.exec symbols) entry switchCode = some cpu := by
    rw [switchCode, replay_append saved, restored]
  have esp := suspended.esp
  have above := suspended.above
  have below := suspended.below
  refine ⟨{ sys with currentThread := nextThread, cpu := cpu }, ?_, rfl, ?_,
    fun thread other differs promised => ?_⟩
  · -- The step of the model is this call, pushes and all.
    simp [step, found, nextFound, entered, ran]
  · -- The next thread is back, with all that was kept for it.
    constructor
    case current => rfl
    case registers => exact registers
    case pc => exact pc
    case stack =>
      intro place' found' address low high
      cases nextFound.symm.trans found'
      -- `SWITCH` has put a word where its first argument was, which is below what it promises.
      have outside := (ThreadPlace.not_owns.mp (placed.sound _ _ nextFound).outside).2
      rw [memory _ (by omega) (by omega)]
      exact suspended.stack _ low high
  · -- The others own neither `_eax_save` nor the argument slot.
    obtain ⟨otherPlace, otherFound, otherSuspended⟩ := halfway thread other promised
    refine ⟨otherPlace, otherFound, otherSuspended.frame fun address owned => memory _ ?_ ?_⟩
    · intro save
      subst save
      exact (placed.sound _ _ otherFound).outside owned
    · intro argument
      refine placed.apart _ _ _ _ otherFound nextFound differs _ owned (.inr ?_)
      omega

/-- What `StackAllocate` writes, and that it writes only into what the new thread owns. -/
theorem stackAllocate_memory {place : ThreadPlace} (sound : place.Sound symbols)
    (aligned : place.stack % 4 = 0) (size : place.stackEnd = place.stack + 4 * stackSize)
    (func arg : Nat) (cpu : Cpu) :
    ∃ made, stackAllocate symbols place func arg cpu = some made ∧
      (∀ address, ¬ place.Owns address → made.memory address = cpu.memory address) ∧
      made.memory place.object = place.stack + 4 * (stackSize - 4) - 4 ∧
      made.memory (place.stack + 4 * (stackSize - 4) - 4) = symbols.threadRoot ∧
      made.memory (place.object + CpuRegister.offset .ecx) = symbols.threadBegin ∧
      made.memory (place.object + CpuRegister.offset .esi) = func ∧
      made.memory (place.object + CpuRegister.offset .edx) = arg ∧
      made.memory (place.object + CpuRegister.offset .edi) = symbols.threadFinish := by
  have object := sound.object
  have apart := sound.apart
  simp only [stackSize] at size
  -- The stores of the source are eight words; simp goes past those that are not asked about.
  refine ⟨_, by
    simp (disch := omega) [stackAllocate, Cpu.write_aligned, ThreadPlace.stackTop,
      ThreadPlace.machineState, pcState, startupPCState, initialPCState, initialArgState,
      whenDonePCState, CpuRegister.offset, pcOffset, stackSize]
    rfl, fun address elsewhere => ?_, ?_⟩
  · -- An address outside the object and the stack is none of the eight.
    rw [ThreadPlace.not_owns] at elsewhere
    simp (disch := omega) [Function.update_of_ne]
  · -- The words are at eight different addresses.
    simp (disch := omega) [Function.update_of_ne, CpuRegister.offset, stackSize]

/-- A new thread is kept in memory so that `SWITCH` first comes to `ThreadRoot`. -/
theorem stackAllocate_ready {place : ThreadPlace} (sound : place.Sound symbols)
    (aligned : place.stack % 4 = 0) (size : place.stackEnd = place.stack + 4 * stackSize)
    (func arg : Nat) (cpu : Cpu) :
    ∃ made, stackAllocate symbols place func arg cpu = some made ∧
      (∀ address, ¬ place.Owns address → made.memory address = cpu.memory address) ∧
      ∃ back, Suspended made.memory place back ∧ back.pc = symbols.threadRoot ∧
        back.registers .ecx = symbols.threadBegin ∧ back.registers .esi = func ∧
        back.registers .edx = arg ∧ back.registers .edi = symbols.threadFinish ∧
        back.registers .esp = place.stack + 4 * (stackSize - 4) := by
  obtain ⟨made, allocated, same, esp, pc, ecx, esi, edx, edi⟩ :=
    stackAllocate_memory sound aligned size func arg cpu
  -- The registers that are not set have whatever the memory of the thread held.
  -- The state that the first `SWITCH` to the thread comes to.
  let back : Cpu :=
    { registers := fun register =>
        if register = .esp then place.stack + 4 * (stackSize - 4)
        else made.memory (place.object + register.offset)
      memory := made.memory
      pc := symbols.threadRoot }
  refine ⟨made, allocated, same, back, ?_, rfl, ecx, esi, edx, edi, rfl⟩
  simp only [stackSize] at size esp pc
  -- The stack is empty but for the start address, so there is nothing to keep above it.
  constructor
  case registers => exact fun register differs => (if_neg differs).symm
  case esp =>
    rw [esp]
    simp only [back, stackSize, if_true]
    omega
  case pc => rw [esp, pc]
  case aligned => omega
  case above => omega
  case below => omega
  case stack => exact fun _ _ _ => rfl

/-- Every thread has a place of its own, and every one that does not run is kept to come back. -/
structure Ready (symbols : Symbols) (sys : SwitchSystem) : Prop extends Placed symbols sys where
  kept : ∀ thread place, sys.place thread = some place → thread ≠ sys.currentThread →
    ∃ back, sys.Waiting thread back

/-- What brings a thread to the running state exists for each thread that has a place. -/
theorem Ready.promised (ready : Ready symbols sys) {place : ThreadPlace}
    (found : sys.place thread = some place) (after : Nat) :
    ∃ back, sys.Promised after thread back := by
  by_cases runs : thread = sys.currentThread
  · exact ⟨_, .inl ⟨runs, rfl⟩⟩
  · obtain ⟨back, waiting⟩ := ready.kept _ _ found runs
    exact ⟨back, .inr ⟨runs, waiting⟩⟩

/-- The call of `SWITCH` is refused only if the next thread has no place. -/
theorem switch_found {nextThread after : Nat}
    (stepped : sys.step symbols (.switch nextThread after) = some next) :
    ∃ place, sys.place nextThread = some place := by
  obtain ⟨_, _, place, found, -⟩ := by simpa [step, Option.bind_eq_some_iff] using stepped
  exact ⟨place, found⟩

/-- A fork makes a new stack, and changes nothing but what its thread owns. -/
theorem fork_cases {place : ThreadPlace} {func arg : Nat}
    (respects : Respects symbols sys (.fork thread place func arg))
    (stepped : sys.step symbols (.fork thread place func arg) = some next) :
    sys.place thread = none ∧ next.place = Function.update sys.place thread (some place) ∧
      next.currentThread = sys.currentThread ∧
      (∀ address, ¬ place.Owns address → next.cpu.memory address = sys.cpu.memory address) ∧
      ∃ back, Suspended next.cpu.memory place back ∧ back.pc = symbols.threadRoot ∧
        back.registers .ecx = symbols.threadBegin ∧ back.registers .esi = func ∧
        back.registers .edx = arg ∧ back.registers .edi = symbols.threadFinish ∧
        back.registers .esp = place.stack + 4 * (stackSize - 4) := by
  -- The allocation makes a stack on which the thread is ready.
  obtain ⟨sound, aligned, size, -⟩ := respects
  obtain ⟨made, allocated, same, ready⟩ := stackAllocate_ready sound aligned size func arg sys.cpu
  -- The number must be new, and then the step is the allocation.
  simp only [step, allocated] at stepped
  split at stepped
  · -- A number that is taken is refused.
    cases stepped
  · next absent =>
    cases stepped
    exact ⟨by simpa using absent, rfl, rfl, same, ready⟩

/-- The running thread is not deleted, and the deletion of another takes only that one away. -/
theorem delete_cases (stepped : sys.step symbols (.delete thread) = some next) :
    thread ≠ sys.currentThread ∧ next.currentThread = sys.currentThread ∧ next.cpu = sys.cpu ∧
      next.place = Function.update sys.place thread none ∧
      ∀ other place, next.place other = some place →
        other ≠ thread ∧ sys.place other = some place := by
  -- The running thread cannot be deleted, and the others keep their places.
  simp only [step] at stepped
  split at stepped
  · -- The running thread is refused.
    cases stepped
  · next differs =>
    cases stepped
    refine ⟨differs, rfl, rfl, rfl, fun other place found => ?_⟩
    by_cases same : other = thread
    · -- The thread itself has no place any more.
      subst same
      simp at found
    · exact ⟨same, by simpa [same] using found⟩

/-- A step of another thread keeps a thread that waits, unless it is what brings it back. -/
theorem waiting_step (ready : Ready symbols sys) (respects : Respects symbols sys event)
    (stepped : sys.step symbols event = some next) (other : thread ≠ sys.currentThread)
    (waiting : sys.Waiting thread back) (lives : event ≠ .delete thread) :
    (thread ≠ next.currentThread ∧ next.Waiting thread back) ∨ next.Back thread back := by
  -- By cases on the step, of which only `SWITCH` can bring the thread back.
  obtain ⟨place, found, suspended⟩ := waiting
  cases event with
  | execute cpu =>
    cases stepped
    -- Code of the running thread writes nothing that this thread owns.
    exact .inl ⟨other, place, found, suspended.frame (respects thread place other found)⟩
  | fork forked newPlace func arg =>
    obtain ⟨absent, places, current, same, -⟩ := fork_cases respects stepped
    -- The new number is not that of a thread that waits.
    have differs : thread ≠ forked := by
      intro equal
      rw [equal, absent] at found
      cases found
    refine .inl ⟨by rwa [current], place, by rw [places, Function.update_of_ne differs, found], ?_⟩
    -- What is new is apart from what this thread owns.
    exact suspended.frame fun address owned =>
      same _ fun new => respects.2.2.2 _ _ found _ new owned
  | «switch» nextThread after =>
    obtain ⟨nextPlace, nextFound⟩ := switch_found stepped
    have promised : sys.Promised after thread back := .inr ⟨other, place, found, suspended⟩
    by_cases comes : thread = nextThread
    · -- It is the thread that `SWITCH` brings back.
      subst comes
      obtain ⟨again, stepped', -, arrived, -⟩ := step_switch ready.toPlaced respects promised
      cases stepped.symm.trans stepped'
      exact .inr arrived
    · obtain ⟨_, promisedNext⟩ := ready.promised nextFound after
      obtain ⟨again, stepped', -, arrived, others⟩ :=
        step_switch ready.toPlaced respects promisedNext
      cases stepped.symm.trans stepped'
      exact .inl ⟨by rwa [arrived.current], others _ _ comes promised⟩
  | delete gone =>
    -- Another thread is deleted, and memory stays as it is.
    have differs : thread ≠ gone := fun equal => lives (by rw [equal])
    obtain ⟨-, current, cpu, places, -⟩ := delete_cases stepped
    exact .inl ⟨by rwa [current], place, by rwa [places, Function.update_of_ne differs],
      by rwa [cpu]⟩

/-- The thread that calls `SWITCH` is back if it switched to itself, and else is kept. -/
theorem waiting_switch (ready : Ready symbols sys) {nextThread after : Nat}
    (respects : Respects symbols sys (.switch nextThread after))
    (stepped : sys.step symbols (.switch nextThread after) = some next) :
    (sys.currentThread ≠ next.currentThread ∧
        next.Waiting sys.currentThread (sys.cpu.returning after)) ∨
      next.Back sys.currentThread (sys.cpu.returning after) := by
  -- What is promised to the caller of `SWITCH` is its own state, as it returns.
  obtain ⟨nextPlace, nextFound⟩ := switch_found stepped
  have mine : sys.Promised after sys.currentThread (sys.cpu.returning after) := .inl ⟨rfl, rfl⟩
  by_cases self : nextThread = sys.currentThread
  · subst self
    -- A thread that switches to itself is kept and brought back in one call.
    obtain ⟨again, stepped', -, arrived, -⟩ := step_switch ready.toPlaced respects mine
    cases stepped.symm.trans stepped'
    exact .inr arrived
  · -- Else it is kept while the next thread is brought back.
    obtain ⟨_, promisedNext⟩ := ready.promised nextFound after
    obtain ⟨again, stepped', -, arrived, others⟩ :=
      step_switch ready.toPlaced respects promisedNext
    cases stepped.symm.trans stepped'
    have differs : sys.currentThread ≠ nextThread := fun equal => self equal.symm
    exact .inl ⟨by rwa [arrived.current], others _ _ differs mine⟩

/-- The places stay apart: a fork adds one apart from all, and a deletion takes one away. -/
theorem placed_step (ready : Ready symbols sys) (respects : Respects symbols sys event)
    (stepped : sys.step symbols event = some next) : Placed symbols next := by
  -- By cases on the step: only a fork and a deletion change the places.
  obtain ⟨running, sound, apart⟩ := ready.toPlaced
  cases event with
  | execute cpu =>
    cases stepped
    exact ⟨running, sound, apart⟩
  | fork forked newPlace func arg =>
    obtain ⟨absent, places, current, -⟩ := fork_cases respects stepped
    obtain ⟨soundNew, -, -, apartNew⟩ := respects
    constructor
    -- The running thread is not the new one, which has no place yet.
    case running =>
      obtain ⟨place, found⟩ := running
      refine ⟨place, ?_⟩
      rw [current, places, Function.update_of_ne, found]
      intro equal
      rw [equal, absent] at found
      cases found
    -- The place of the new thread was checked, and the others are as they were.
    case sound =>
      intro thread place found
      rw [places, Function.update_apply] at found
      split at found
      · cases found
        exact soundNew
      · exact sound _ _ found
    -- The new place is apart from all the others, on whichever side it stands.
    case apart =>
      intro thread place other place' found found' differs address owned owned'
      rw [places, Function.update_apply] at found found'
      split at found
      · split at found'
        · exact differs (by simp_all)
        · cases found
          exact apartNew _ _ found' _ owned owned'
      · split at found'
        · cases found'
          exact apartNew _ _ found _ owned' owned
        · exact apart _ _ _ _ found found' differs _ owned owned'
  | «switch» nextThread after =>
    obtain ⟨nextPlace, nextFound⟩ := switch_found stepped
    obtain ⟨_, promisedNext⟩ := ready.promised nextFound after
    obtain ⟨again, stepped', places, arrived, -⟩ :=
      step_switch ready.toPlaced respects promisedNext
    cases stepped.symm.trans stepped'
    -- The places are the same, and the next thread has one.
    exact ⟨⟨nextPlace, by rw [arrived.current, places, nextFound]⟩, by rwa [places],
      by rwa [places]⟩
  | delete gone =>
    obtain ⟨other, current, -, places, kept⟩ := delete_cases stepped
    constructor
    case running =>
      obtain ⟨place, found⟩ := running
      exact ⟨place, by rwa [current, places, Function.update_of_ne (Ne.symm other)]⟩
    -- What is left was there before, with the same places.
    case sound => exact fun thread place found => sound _ _ (kept _ _ found).2
    case apart =>
      exact fun thread place other place' found found' =>
        apart _ _ _ _ (kept _ _ found).2 (kept _ _ found').2

/-- Whatever step is taken, every thread that does not run is kept to come back. -/
theorem ready_step (ready : Ready symbols sys) (respects : Respects symbols sys event)
    (stepped : sys.step symbols event = some next) : Ready symbols next := by
  refine ⟨placed_step ready respects stepped, fun thread place found other => ?_⟩
  -- A thread that did not run before either is kept by the step.
  have keeps : ∀ place', sys.place thread = some place' → thread ≠ sys.currentThread →
      event ≠ .delete thread → ∃ back, next.Waiting thread back := by
    intro place' found' waits lives
    obtain ⟨back, waiting⟩ := ready.kept _ _ found' waits
    rcases waiting_step ready respects stepped waits waiting lives with ⟨-, kept⟩ | arrived
    · exact ⟨back, kept⟩
    · exact absurd arrived.current.symm other
  -- By cases on the step: who does not run after it did not run before, or has just been left.
  cases event with
  | execute cpu =>
    cases stepped
    exact keeps _ found other (by simp)
  | fork forked newPlace func arg =>
    obtain ⟨-, places, current, -, back, suspended, -⟩ := fork_cases respects stepped
    -- A new thread is kept with the state in which it starts.
    by_cases new : thread = forked
    · subst new
      exact ⟨back, newPlace, by rw [places, Function.update_self], suspended⟩
    · rw [places, Function.update_of_ne new] at found
      exact keeps _ found (by rwa [← current]) (by simp)
  | «switch» nextThread after =>
    -- The thread that called `SWITCH` is kept now, unless it came back at once.
    by_cases ran : thread = sys.currentThread
    · subst ran
      rcases waiting_switch ready respects stepped with ⟨-, kept⟩ | arrived
      · exact ⟨_, kept⟩
      · exact absurd arrived.current.symm other
    · obtain ⟨nextPlace, nextFound⟩ := switch_found stepped
      obtain ⟨_, promisedNext⟩ := ready.promised nextFound after
      obtain ⟨again, stepped', places, -⟩ := step_switch ready.toPlaced respects promisedNext
      cases stepped.symm.trans stepped'
      rw [places] at found
      exact keeps _ found ran (by simp)
  -- Whoever is still there was not the one deleted.
  | delete gone =>
    obtain ⟨-, current, -, -, kept⟩ := delete_cases stepped
    obtain ⟨differs, found'⟩ := kept _ _ found
    refine keeps _ found' (by rwa [← current]) ?_
    intro equal
    cases equal
    exact differs rfl

/-- The first thread runs, and there is no other. -/
theorem ready_start {place : ThreadPlace} (sound : place.Sound symbols) (cpu : Cpu) :
    Ready symbols (start place cpu) := by
  -- There is one place, and it is that of the running thread.
  have only : ∀ thread place', (start place cpu).place thread = some place' →
      thread = 0 ∧ place' = place := by
    intro thread place' found
    by_cases first : thread = 0
    · subst first
      simpa [start, eq_comm] using found
    · simp [start, first] at found
  -- Nothing has to be kept, for want of other threads.
  refine ⟨⟨⟨place, by simp [start]⟩, ?_, ?_⟩, fun thread place' found other => ?_⟩
  · intro thread place' found
    obtain ⟨-, rfl⟩ := only _ _ found
    exact sound
  · intro thread place' other place'' found found' differs
    exact absurd ((only _ _ found).1.trans (only _ _ found').1.symm) differs
  · exact absurd (only _ _ found).1 other

/-- A thread that is kept to come back is back when it runs next, if it is not deleted. -/
theorem comes_back (ready : Ready symbols sys) (waits : thread ≠ sys.currentThread ∧
      sys.Waiting thread back ∨ sys.Back thread back) {events : List SwitchEvent}
    {final : SwitchSystem}
    (respects : EveryStep (step symbols) (Respects symbols) sys events)
    (absent : EveryStep (step symbols)
      (fun now event => now.currentThread ≠ thread ∧ event ≠ .delete thread) sys events)
    (ran : replay (step symbols) sys events = some final) (runs : final.currentThread = thread) :
    final.Back thread back := by
  -- One step keeps the thread waiting, or brings it back, as long as it is not deleted.
  have stays : ∀ now event next, (Ready symbols now ∧
        (thread ≠ now.currentThread ∧ now.Waiting thread back ∨ now.Back thread back)) →
      (Respects symbols now event ∧ now.currentThread ≠ thread ∧ event ≠ .delete thread) →
      now.step symbols event = some next → Ready symbols next ∧
        (thread ≠ next.currentThread ∧ next.Waiting thread back ∨ next.Back thread back) := by
    intro now event next ⟨ready, waits⟩ ⟨respects, other, lives⟩ stepped
    refine ⟨ready_step ready respects stepped, ?_⟩
    -- A thread that is back runs, and the run goes on only while it does not.
    rcases waits with ⟨-, waiting⟩ | arrived
    · exact waiting_step ready respects stepped (Ne.symm other) waiting lives
    · exact absurd arrived.current other
  -- By induction on the run; at its end the thread runs, so it no longer waits.
  rcases (replay_guarded stays ⟨ready, waits⟩ (respects.and absent) ran).2 with
    ⟨other, -⟩ | arrived
  · exact absurd runs.symm other
  · exact arrived

/-- Every state of a run whose steps respect the context switch is ready for it. -/
theorem ready_run {place : ThreadPlace} (sound : place.Sound symbols) {cpu : Cpu}
    {events : List SwitchEvent}
    (respects : EveryStep (step symbols) (Respects symbols) (start place cpu) events)
    (reached : replay (step symbols) (start place cpu) events = some sys) : Ready symbols sys :=
  replay_guarded (fun _ _ _ => ready_step) (ready_start sound cpu) respects reached

/--
`SWITCH` returns, with everything as its caller left it, when the thread runs again.

Whatever thread it goes to, the call succeeds; and at the end of every run of the other threads that
brings the caller back, the processor is after the call, all registers are as they were, the two
arguments are on top of the stack, and what was on the stack before them is still there.
-/
theorem switch_returns (symbols : Symbols) (place : ThreadPlace) (cpu : Cpu)
    (sound : place.Sound symbols) (before : List SwitchEvent) (sys : SwitchSystem)
    (nextThread after : Nat)
    (respects : EveryStep (step symbols) (Respects symbols) (start place cpu) before)
    (reached : replay (step symbols) (start place cpu) before = some sys)
    (known : (sys.place nextThread).isSome)
    (inside : Respects symbols sys (.switch nextThread after)) :
    ∃ away, sys.step symbols (.switch nextThread after) = some away ∧
      away.currentThread = nextThread ∧
      ∀ between home, EveryStep (step symbols) (Respects symbols) away between →
        EveryStep (step symbols) (fun now event =>
          now.currentThread ≠ sys.currentThread ∧ event ≠ .delete sys.currentThread)
          away between →
        replay (step symbols) away between = some home →
        home.currentThread = sys.currentThread →
        home.cpu.pc = after ∧
        home.cpu.registers .esp = sys.cpu.registers .esp - 8 ∧
        (∀ register, register ≠ .esp →
          home.cpu.registers register = sys.cpu.registers register) ∧
        ∀ place, home.place sys.currentThread = some place → ∀ address,
          sys.cpu.registers .esp ≤ address → address < place.stackEnd →
          home.cpu.memory address = sys.cpu.memory address := by
  -- Every thread that does not run is kept, in every state that can be reached.
  have ready : Ready symbols sys := ready_run sound respects reached
  obtain ⟨nextPlace, nextFound⟩ := Option.isSome_iff_exists.mp known
  obtain ⟨_, promised⟩ := ready.promised nextFound after
  obtain ⟨away, stepped, -, arrived, -⟩ := step_switch ready.toPlaced inside promised
  refine ⟨away, stepped, arrived.current, fun between home respects absent ran runs => ?_⟩
  -- The caller is kept by its own call, and so it comes back.
  have back : home.Back sys.currentThread (sys.cpu.returning after) :=
    comes_back (ready_step ready inside stepped) (waiting_switch ready inside stepped)
      respects absent ran runs
  refine ⟨back.pc, by rw [back.registers, Cpu.returning_esp], fun register differs => ?_,
    fun place found address low high => ?_⟩
  · -- The registers are those of the call, as `ret` leaves them.
    rw [back.registers, Cpu.returning_registers differs]
  · -- The stack above the call belongs to the caller, and nobody else wrote there.
    obtain ⟨mine, running⟩ := ready.running
    have room := (inside mine running).2.1
    refine back.stack place found address ?_ high
    rw [Cpu.returning_esp]
    omega

end SwitchSystem

/--
A function returns by the conventions of the compiler.

It takes its return address off the stack, keeps four registers, and writes neither into the frame
of its caller nor above it, but for its own arguments.
-/
structure ReturnsTo (arguments : Nat) (entry back : Cpu) : Prop where
  esp : back.registers .esp = entry.registers .esp + 4
  saved : ∀ register ∈ [CpuRegister.ebx, .esi, .edi, .ebp],
    back.registers register = entry.registers register
  frame : ∀ address, entry.registers .esp + 4 + 4 * arguments ≤ address →
    back.memory address = entry.memory address

/-- The calls are those expected, each made when the one before has returned. -/
def CallsInTurn (callee : Callee) : List (Cpu → Prop) → List Cpu → Prop
  | [], calls => calls = []
  | expected :: more, calls => ∃ entry rest, calls = entry :: rest ∧ expected entry ∧
      match callee entry with
      | none => rest = []
      | some _ => CallsInTurn callee more rest

/-- The functions that `ThreadRoot` calls: the first has no argument, and the others have one. -/
def Conventional (symbols : Symbols) (callee : Callee) : Prop :=
  ∀ entry back, callee entry = some back →
    ReturnsTo (if entry.pc = symbols.threadBegin then 0 else 1) entry back

namespace Cpu

variable {symbols : Symbols}

/-- A call is as expected, and so are the later ones, if they are from where it returns. -/
theorem callsInTurn_call {callee : Callee} {cpu : Cpu} {target : CpuRegister} {after : Nat}
    {rest : List CpuInstruction} {expected : Cpu → Prop} {more : List (Cpu → Prop)}
    (aligned : cpu.registers .esp % 4 = 0) (room : 4 ≤ cpu.registers .esp)
    (holds : ∀ entry : Cpu, entry.pc = cpu.registers target →
      entry.registers = Function.update cpu.registers .esp (cpu.registers .esp - 4) →
      entry.memory = Function.update cpu.memory (cpu.registers .esp - 4) after →
      expected entry ∧ ∀ back, callee entry = some back →
        CallsInTurn callee more (runCode symbols callee rest back).1) :
    CallsInTurn callee (expected :: more)
      (runCode symbols callee (.call target after :: rest) cpu).1 := by
  -- The call pushes the address after it and goes to the function.
  obtain ⟨pushed, called, registers, memory⟩ := push_aligned cpu aligned room after
  obtain ⟨now, later⟩ := holds { pushed with pc := cpu.registers target } rfl registers memory
  simp only [runCode, exec, called, Option.bind_eq_bind, Option.bind_some, Option.pure_def]
  -- If the function does not return, that call was the last one.
  cases returns : callee { pushed with pc := cpu.registers target } with
  | none => exact ⟨_, _, rfl, now, by simp [returns]⟩
  | some back => exact ⟨_, _, rfl, now, by simpa [returns] using later back returns⟩

/-- Code without calls makes none, however far it comes. -/
theorem runCode_quiet (callee : Callee) {code : List CpuInstruction}
    (quiet : ∀ target after, .call target after ∉ code) :
    ∀ cpu, (runCode symbols callee code cpu).1 = [] := by
  -- By induction on the code: no instruction of it is a call.
  induction code with
  | nil => exact fun _ => rfl
  | cons instruction rest ih =>
    intro cpu
    have later := ih fun target after member => quiet target after (List.mem_cons_of_mem _ member)
    -- The calls are excluded, and the others go on or stop.
    cases instruction
    case call target after => exact absurd List.mem_cons_self (quiet target after)
    all_goals
      simp only [runCode]
      split
      · rfl
      · exact later _

/-- Before its calls `ThreadRoot` pushes the frame pointer and the argument. -/
theorem runCode_threadRoot (symbols : Symbols) (callee : Callee) {cpu : Cpu}
    (aligned : cpu.registers .esp % 4 = 0) (room : 8 ≤ cpu.registers .esp) :
    ∃ frame : Cpu, (∀ rest, runCode symbols callee
        (.push .ebp :: .move .esp .ebp :: .push .edx :: rest) cpu =
          runCode symbols callee rest frame) ∧
      frame.registers .esp = cpu.registers .esp - 8 ∧
      frame.memory (cpu.registers .esp - 8) = cpu.registers .edx ∧
      ∀ register, register ≠ .esp → register ≠ .ebp →
        frame.registers register = cpu.registers register := by
  -- Two pushes, with the frame pointer set in between.
  obtain ⟨first, pushed, registers, memory⟩ :=
    push_aligned cpu aligned (by omega) (cpu.registers .ebp)
  -- The first push is at the stack pointer.
  have top : first.registers .esp = cpu.registers .esp - 4 := by simp [registers]
  obtain ⟨frame, pushed', registers', memory'⟩ :=
    push_aligned (first.set .ebp (first.registers .esp)) (by simp; omega) (by simp; omega)
      (first.registers .edx)
  -- The second one is below it.
  have below : cpu.registers .esp - 4 - 4 = cpu.registers .esp - 8 := by omega
  refine ⟨frame, fun rest => ?_, ?_, ?_, fun register other other' => ?_⟩
  · -- Both pushes go through, and the rest of the code runs from there.
    simp [runCode, exec, pushed, pushed']
  · -- The frame is two words below.
    simp [registers', top, below]
  · -- The two words are the argument and the frame pointer.
    simp [memory', top, below, registers]
  · simp [registers', registers, other, other']

/-- `ThreadRoot` calls the start-up function, the function with its argument, and the last one. -/
theorem threadRoot_calls {callee : Callee} (conventional : Conventional symbols callee) {cpu : Cpu}
    {func arg : Nat} (aligned : cpu.registers .esp % 4 = 0) (room : 12 ≤ cpu.registers .esp)
    (ecx : cpu.registers .ecx = symbols.threadBegin) (esi : cpu.registers .esi = func)
    (edx : cpu.registers .edx = arg) (edi : cpu.registers .edi = symbols.threadFinish)
    (begun worked finished : Nat) :
    CallsInTurn callee
      [fun entry => entry.pc = symbols.threadBegin,
        fun entry => entry.pc = func ∧ entry.memory (entry.registers .esp + 4) = arg,
        fun entry => entry.pc = symbols.threadFinish]
      (runCode symbols callee (threadRootCode begun worked finished) cpu).1 := by
  obtain ⟨frame, ran, top, argument, kept⟩ :=
    runCode_threadRoot symbols callee aligned (by omega)
  have slot : cpu.registers .esp - 8 - 4 + 4 = cpu.registers .esp - 8 := by omega
  rw [threadRootCode, ran]
  -- The start-up function has no argument, and so it leaves the one that was pushed.
  apply callsInTurn_call (by omega) (by omega)
  intro entry pc registers memory
  rw [kept .ecx (by simp) (by simp), ecx] at pc
  refine ⟨pc, fun back returned => ?_⟩
  obtain ⟨esp, saved, same⟩ := conventional entry back returned
  -- The stack is as before the call, so the argument is still on its top.
  rw [registers, Function.update_self, top, slot] at esp
  have pushed : back.memory (cpu.registers .esp - 8) = arg := by
    rw [same _ (by simp [pc, registers, top]; omega), memory, top,
      Function.update_of_ne (by omega), argument, edx]
  -- A conventional function gives back the registers that are the callee's to save.
  have held : ∀ register ∈ [CpuRegister.esi, .edi],
      back.registers register = cpu.registers register := by
    intro register member
    simp only [List.mem_cons, List.not_mem_nil, or_false] at member
    rcases member with rfl | rfl <;>
      rw [saved _ (by simp), registers, Function.update_of_ne (by simp), kept _ (by simp) (by simp)]
  -- The function keeps the registers that the last call needs.
  apply callsInTurn_call (by omega) (by omega)
  intro entry pc registers memory
  rw [held .esi (by simp), esi] at pc
  refine ⟨⟨pc, ?_⟩, fun back' returned => ?_⟩
  · rw [registers, Function.update_self, memory, esp, slot, Function.update_of_ne (by omega)]
    exact pushed
  -- The second call pops nothing either, and keeps `edi`, where the last function is.
  obtain ⟨esp', saved', -⟩ := conventional entry back' returned
  rw [registers, Function.update_self, esp, slot] at esp'
  apply callsInTurn_call (by omega) (by omega)
  intro entry' pc' _ _
  -- Behind the third call there is no other.
  refine ⟨?_, fun back'' _ => runCode_quiet callee (by simp) _⟩
  rw [pc', saved' .edi (by simp), registers, Function.update_of_ne (by simp), held .edi (by simp),
    edi]

end Cpu

namespace SwitchSystem

variable {symbols : Symbols}

/--
A forked thread starts in `ThreadRoot`, which enables interrupts, does the work, and finishes.

At the end of every run of the other threads that first brings the new thread to the processor, it
is at `ThreadRoot`; and from there it calls `ThreadBegin`, then the forked function with its
argument, and then `ThreadFinish`, each when the one before has returned, whatever they do. The
threads are those that respect what the others own, before the fork and after it.
-/
theorem fork_starts (symbols : Symbols) (place : ThreadPlace) (cpu : Cpu)
    (sound : place.Sound symbols) (before : List SwitchEvent) (sys : SwitchSystem)
    (thread : Nat) (newPlace : ThreadPlace) (func arg : Nat)
    (respects : EveryStep (step symbols) (Respects symbols) (start place cpu) before)
    (reached : replay (step symbols) (start place cpu) before = some sys)
    (new : sys.place thread = none)
    (given : Respects symbols sys (.fork thread newPlace func arg)) :
    ∃ away, sys.step symbols (.fork thread newPlace func arg) = some away ∧
      ∀ between home, EveryStep (step symbols) (Respects symbols) away between →
        EveryStep (step symbols)
          (fun now event => now.currentThread ≠ thread ∧ event ≠ .delete thread) away between →
        replay (step symbols) away between = some home → home.currentThread = thread →
        home.cpu.pc = symbols.threadRoot ∧
        ∀ callee, Conventional symbols callee → ∀ begun worked finished,
          CallsInTurn callee
            [fun entry => entry.pc = symbols.threadBegin,
              fun entry => entry.pc = func ∧ entry.memory (entry.registers .esp + 4) = arg,
              fun entry => entry.pc = symbols.threadFinish]
            (runCode symbols callee (threadRootCode begun worked finished) home.cpu).1 := by
  -- Every thread that does not run is kept, in every state that can be reached.
  have ready : Ready symbols sys := ready_run sound respects reached
  have aligned := given.2.1
  obtain ⟨made, allocated, -⟩ :=
    stackAllocate_ready given.1 given.2.1 given.2.2.1 func arg sys.cpu
  -- The number is new, so the fork goes through.
  have stepped : ∃ away, sys.step symbols (.fork thread newPlace func arg) = some away := by
    simp [step, new, allocated]
  obtain ⟨away, stepped⟩ := stepped
  refine ⟨away, stepped, fun between home respects absent ran runs => ?_⟩
  obtain ⟨-, places, current, -, back, suspended, pc, ecx, esi, edx, edi, esp⟩ :=
    fork_cases given stepped
  -- The new thread is not the running one, which has a place already.
  have waits : thread ≠ away.currentThread := by
    obtain ⟨mine, running⟩ := ready.running
    intro equal
    rw [current] at equal
    rw [← equal, new] at running
    cases running
  -- The new thread is kept to come back, and so it does, in `ThreadRoot`.
  have arrived : home.Back thread back :=
    comes_back (ready_step ready given stepped)
      (.inl ⟨waits, newPlace, by rw [places, Function.update_self], suspended⟩)
      respects absent ran runs
  have registers := arrived.registers
  rw [← registers] at ecx esi edx edi esp
  -- From there it makes its three calls.
  refine ⟨arrived.pc.trans pc, fun callee conventional begun worked finished => ?_⟩
  simp only [stackSize] at esp
  exact Cpu.threadRoot_calls conventional (by omega) (by omega) ecx esi edx edi begun worked
    finished

/-- The symbols of a small program, for the examples. -/
def smallSymbols : Symbols where
  eaxSave := 100
  threadRoot := 1000
  threadBegin := 1100
  threadFinish := 1200

/-- The first thread of a small program: its object, and a stack of 64 words. -/
def smallPlace : ThreadPlace where
  object := 200
  stack := 400
  stackEnd := 656

/-- The place that a second thread is given. -/
def secondPlace : ThreadPlace where
  object := 700
  stack := 2000
  stackEnd := 2000 + 4 * stackSize

/-- The first thread with numbers in its registers and on its stack. -/
def smallCpu : Cpu where
  registers
    | .esp => 600
    | register => 10 + register.offset
  memory address := address + 1
  pc := 0

/-- The first thread of the small program is well placed. -/
theorem smallPlace_sound : smallPlace.Sound smallSymbols := by
  constructor <;> simp [smallPlace, smallSymbols, ThreadPlace.Owns]

/-- The program after its fork. -/
def smallForked : Option SwitchSystem :=
  replay (step smallSymbols) (start smallPlace smallCpu) [.fork 1 secondPlace 5000 42]

/-- The second thread of the small program is given memory that is free. -/
theorem small_given :
    Respects smallSymbols (start smallPlace smallCpu) (.fork 1 secondPlace 5000 42) := by
  refine ⟨?_, rfl, rfl, fun thread place found address owned => ?_⟩
  · constructor <;> simp [secondPlace, smallSymbols, ThreadPlace.Owns]
  · by_cases first : thread = 0
    · subst first
      cases found
      rw [ThreadPlace.not_owns]
      simp only [ThreadPlace.Owns, secondPlace, smallPlace, stackSize] at *
      omega
    · simp [start, first] at found

/-- The forked thread runs at once, in a small program. -/
theorem fork_starts_small :
    ∃ away home, (start smallPlace smallCpu).step smallSymbols (.fork 1 secondPlace 5000 42) =
        some away ∧
      replay (step smallSymbols) away [.switch 1 3000] = some home ∧
      home.cpu.pc = 1000 ∧
      ∀ callee, Conventional smallSymbols callee → ∀ begun worked finished,
        CallsInTurn callee
          [fun entry => entry.pc = 1100,
            fun entry => entry.pc = 5000 ∧ entry.memory (entry.registers .esp + 4) = 42,
            fun entry => entry.pc = 1200]
          (runCode smallSymbols callee (threadRootCode begun worked finished) home.cpu).1 := by
  obtain ⟨away, stepped, starts⟩ := fork_starts smallSymbols smallPlace smallCpu smallPlace_sound []
    _ 1 secondPlace 5000 42 trivial rfl rfl small_given
  -- Where the first thread stands, evaluated.
  have first : (smallForked.map fun sys =>
      (sys.currentThread, sys.place 0, sys.cpu.registers .esp)) = some (0, some smallPlace, 600) :=
    -- The second thread runs after the switch.
    rfl
  have second : ((smallForked.bind fun sys => replay (step smallSymbols) sys [.switch 1 3000]).map
      (·.currentThread)) = some 1 :=
    rfl
  rw [smallForked, replay_cons stepped] at first second
  -- The run reaches that state.
  obtain ⟨home, ran, runs⟩ := Option.map_eq_some_iff.mp second
  simp only [replay, Option.map_some, Option.some.injEq, Prod.mk.injEq] at first
  obtain ⟨current, found, esp⟩ := first
  -- The call of `SWITCH` has room on the stack of the first thread.
  have inside : Respects smallSymbols away (.switch 1 3000) := by
    intro place running
    rw [current, found] at running
    cases running
    simp [esp, smallPlace]
  -- The result is that of the general theorem.
  exact ⟨away, home, stepped, ran, starts [.switch 1 3000] home ⟨inside, fun _ _ => trivial⟩
    ⟨by simp [current], fun _ _ => trivial⟩ ran runs⟩

/-- The first thread switches to the second one, which switches back at once. -/
theorem switch_returns_pingPong :
    ∃ sys away home, smallForked = some sys ∧
      sys.step smallSymbols (.switch 1 3000) = some away ∧
      replay (step smallSymbols) away [.switch 0 4000] = some home ∧
      home.cpu.pc = 3000 ∧ home.cpu.registers .esp = 592 ∧ home.cpu.registers .ebx = 18 := by
  -- Where both threads stand after the fork, evaluated.
  have first : (smallForked.map fun sys => (sys.currentThread, sys.place 0, sys.place 1,
      sys.cpu.registers .esp, sys.cpu.registers .ebx)) =
        some (0, some smallPlace, some secondPlace, 600, 18) :=
    rfl
  -- And where the second one stands after the first switch.
  have second : ((smallForked.bind fun sys => sys.step smallSymbols (.switch 1 3000)).map
      fun away => (away.place 1, away.cpu.registers .esp)) =
        some (some secondPlace, 34752) :=
    -- The first one runs again after the second switch.
    rfl
  have third : ((smallForked.bind fun sys =>
      replay (step smallSymbols) sys [.switch 1 3000, .switch 0 4000]).map
        (·.currentThread)) = some 0 :=
    rfl
  obtain ⟨sys, reached⟩ : ∃ sys, smallForked = some sys := ⟨_, rfl⟩
  simp only [reached, Option.map_some, Option.some.injEq, Prod.mk.injEq, Option.bind_some]
    at first second third
  obtain ⟨current, found, found', esp, ebx⟩ := first
  -- Both calls of `SWITCH` have room on their stacks.
  have inside : Respects smallSymbols sys (.switch 1 3000) := by
    intro place running
    rw [current, found] at running
    cases running
    simp [esp, smallPlace]
  -- The first switch goes to the second thread.
  obtain ⟨away, stepped, runs, returns⟩ := switch_returns smallSymbols smallPlace smallCpu
    smallPlace_sound [.fork 1 secondPlace 5000 42] sys 1 3000 ⟨small_given, fun _ _ => trivial⟩
    reached (by simp [found']) inside
  simp only [stepped, Option.map_some, Option.some.injEq, Prod.mk.injEq] at second
  rw [replay_cons stepped] at third
  obtain ⟨home, ran, back⟩ := Option.map_eq_some_iff.mp third
  -- The second thread has room on the stack it was given.
  have inside' : Respects smallSymbols away (.switch 0 4000) := by
    intro place running
    rw [runs, second.1] at running
    cases running
    simp [second.2, secondPlace, stackSize]
  -- The second switch returns to the first one, which has its registers.
  obtain ⟨pc, esp', others, -⟩ := returns [.switch 0 4000] home ⟨inside', fun _ _ => trivial⟩
    ⟨by simp [runs, current], fun _ _ => trivial⟩ ran (by rw [back, current])
  exact ⟨sys, away, home, reached, stepped, ran, pc, by rw [esp', esp],
    by rw [others .ebx (by simp), ebx]⟩

end SwitchSystem

end Nachos
