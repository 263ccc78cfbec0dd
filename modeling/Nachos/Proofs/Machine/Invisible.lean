import Nachos.Proofs.Machine.Precise
import Nachos.Proofs.Vm.VirtualMemory

/-! An instruction does the same whether or not the pages that it touches are in memory. -/

namespace Nachos

namespace Machine

variable {pages : Finset Nat} {machine first second : Machine}

/-- Two machines that a program cannot tell apart, but for the address of the last exception. -/
structure Alike (first second : Machine) : Prop where
  registers : ∀ x, x ≠ badVAddrReg → second.registers x = first.registers x
  view : first.kernel.SameView second.kernel

theorem Alike.trans {middle : Machine} (front : first.Alike middle) (back : middle.Alike second) :
    first.Alike second :=
  ⟨fun x different => (back.registers x different).trans (front.registers x different),
    front.view.trans back.view⟩

theorem Alike.symm (alike : first.Alike second) : second.Alike first :=
  ⟨fun x different => (alike.registers x different).symm, alike.view.symm⟩

/-- Writing the same register keeps two machines alike. -/
theorem Alike.write (alike : first.Alike second) (d : Nat) (value : Word) :
    (first.write d value).Alike (second.write d value) := by
  refine ⟨fun x different => ?_, alike.view⟩
  rw [write_registers, write_registers, alike.registers x different]

/-- A machine with no load pending is well formed. -/
theorem Idle.wellFormed (idle : machine.Idle) : machine.WellFormed :=
  ⟨idle.zero, by rw [idle.load]; decide⟩

/-- With no load pending, raising an exception changes the bad address alone. -/
theorem Idle.raiseException_registers (idle : machine.Idle) (badVAddr : Word) (x : Nat) :
    (machine.raiseException badVAddr).registers x =
      if x = badVAddrReg then badVAddr else machine.registers x := by
  rw [Machine.raiseException_registers idle.wellFormed, idle.settle_eq]

/-- No load is pending, and the pages can be accessed without losing any other page. -/
structure Ready (pages : Finset Nat) (machine : Machine) : Prop where
  idle : machine.Idle
  kernel : machine.kernel.Ready pages

/-- Finding a place in memory: an address error, or the frame of the page. -/
theorem Ready.locate (ready : machine.Ready pages) (now : Int) (addr : Word) {size : Nat}
    (sized : size = 1 ∨ size = 2 ∨ size = 4) (member : addr.toNat / pageSize ∈ pages)
    (writing : Bool) :
    ((VmKernel.misaligned addr size = true ∨ machine.kernel.pageTableSize ≤ addr.toNat / pageSize) ∧
      machine.locate now addr size writing =
        some (.error (.memoryException .addressErrorException), machine.raiseException addr)) ∨
    (¬ (VmKernel.misaligned addr size = true ∨
        machine.kernel.pageTableSize ≤ addr.toNat / pageSize) ∧
      addr.toNat % pageSize + size ≤ pageSize ∧
      ∃ page after, machine.locate now addr size writing =
          some (.ok (page * pageSize + addr.toNat % pageSize), after) ∧
        machine.Alike after ∧ after.Ready pages ∧
        after.kernel.Resident after.kernel.currentThread (addr.toNat / pageSize) (page : Nat)) := by
  by_cases bad : VmKernel.misaligned addr size = true ∨
    machine.kernel.pageTableSize ≤ addr.toNat / pageSize
  · -- The address is refused before any page is looked for.
    refine .inl ⟨bad, ?_⟩
    unfold Machine.locate
    rw [ready.kernel.refused writing bad]
    rfl
  refine .inr ⟨bad, ?_⟩
  have straight : VmKernel.misaligned addr size = false := by simpa using fun h => bad (.inl h)
  have aligned := VmKernel.aligned_of_not_misaligned sized straight
  refine ⟨VmKernel.fits_of_aligned sized aligned, ?_⟩
  by_cases gone : machine.kernel.Missing (addr.toNat / pageSize)
  · -- The page fault is served, and the page is then where it was put.
    obtain ⟨served, page, handled, filled, view, resident⟩ := ready.kernel.fault member gone now
    obtain ⟨next, translated, still, view', resident'⟩ :=
      filled.translate writing sized straight resident
    have raised := ready.idle.raiseException_registers addr
    -- The handler reads the address of the fault from its register.
    have bad : (machine.raiseException addr).registers badVAddrReg = addr := by
      rw [raised, if_pos rfl]
    refine ⟨page, { machine.raiseException addr with kernel := next }, ?_,
      ⟨fun x different => ?_, ?_⟩, ⟨?_, still⟩, resident'⟩
    · -- The translation is tried again, and finds the page.
      unfold Machine.locate
      rw [ready.kernel.faults writing straight gone]
      have kernel : (machine.raiseException addr).kernel = machine.kernel := rfl
      simp only [Option.bind_eq_bind, Option.bind_some, exceptionHandler, bad, kernel, handled,
        translated, Int.toNat_natCast, Option.pure_def]
    · -- No other register has changed.
      exact (raised x).trans (if_neg different)
    · exact view.trans view'
    · -- There is no load pending after an exception.
      obtain ⟨load, value, zero⟩ := idle_raiseException machine addr
      exact ⟨load, value, zero⟩
  · -- The page is in memory, and is found there.
    obtain ⟨space, live, size'⟩ := ready.kernel.paged.sized _ ready.kernel.own
    have below : addr.toNat / pageSize < space.numPages := by
      rw [size']
      -- A page that is not missing has a frame.
      exact Nat.lt_of_not_le fun h => bad (.inr h)
    obtain ⟨frame, resident⟩ := VmKernel.resident_of_not_missing live below gone
    obtain ⟨page, rfl, -⟩ := ready.kernel.paged.table.recorded _ _ _ resident
    obtain ⟨next, translated, still, view, resident'⟩ :=
      ready.kernel.translate writing sized straight resident
    refine ⟨page, { machine with kernel := next }, ?_, ⟨fun _ _ => rfl, view⟩,
      ⟨⟨ready.idle.load, ready.idle.loadValue, ready.idle.zero⟩, still⟩, resident'⟩
    unfold Machine.locate
    simp only [translated, Option.bind_eq_bind, Option.bind_some, Int.toNat_natCast,
      Option.pure_def]

/-- Two machines alike, on both of which the pages can be accessed. -/
structure Twins (pages : Finset Nat) (first second : Machine) : Prop where
  alike : first.Alike second
  ready : first.Ready pages
  ready' : second.Ready pages

/-- The instruction word that is at the program counter, and can be read there. -/
def Fetches (machine : Machine) (now : Int) (raw : Word) : Prop :=
  ∃ after, machine.readMem now (machine.registers pcReg) 4 = some (.ok raw, after)

namespace Twins

/-- What an access to memory answers on two such machines, the first of which was this one. -/
inductive Answers {Value : Type} (pages : Finset Nat) (before : Machine) :
    Except MachineException Value × Machine → Except MachineException Value × Machine → Prop
  | ok (value : Value) {first second : Machine} (same : before.Alike first)
    (twins : Twins pages first second) : Answers pages before (.ok value, first) (.ok value, second)
  | refused {first second : Machine} (alike : first.Alike second) :
    Answers pages before (.error (.memoryException .addressErrorException), first)
      (.error (.memoryException .addressErrorException), second)

/-- How an instruction ends on two such machines. -/
inductive Ends : Executed → Executed → Prop
  | finished (pcAfter : Word) (nextLoadReg : Nat) (value : Word) {first second : Machine}
    (alike : first.Alike second) :
    Ends (.finished first pcAfter nextLoadReg value) (.finished second pcAfter nextLoadReg value)
  | trapped (which : MachineException) (other : which ≠ .memoryException .pageFaultException)
    {first second : Machine} (alike : first.Alike second) :
    Ends (.trapped which first) (.trapped which second)

/-- Two such machines stay so when each of them changes in ways that cannot be told. -/
theorem joined (twins : Twins pages first second) {middle middle' : Machine}
    (alike : first.Alike middle) (ready : middle.Ready pages) (alike' : second.Alike middle')
    (ready' : middle'.Ready pages) : Twins pages middle middle' :=
  ⟨alike.symm.trans (twins.alike.trans alike'), ready, ready'⟩

/-- An exception leaves the machines alike. -/
theorem raiseException (twins : Twins pages first second) (badVAddr : Word) :
    (first.raiseException badVAddr).Alike (second.raiseException badVAddr) := by
  refine ⟨fun x different => ?_, twins.alike.view⟩
  rw [twins.ready'.idle.raiseException_registers, twins.ready.idle.raiseException_registers,
    if_neg different, if_neg different]
  exact twins.alike.registers x different

section Access

variable {now : Int} {addr : Word} {size : Nat}

/-- What is read is the same, wherever the page is. -/
theorem readMem (twins : Twins pages first second) (sized : size = 1 ∨ size = 2 ∨ size = 4)
    (member : addr.toNat / pageSize ∈ pages) :
    Option.Rel (Answers pages first) (first.readMem now addr size)
      (second.readMem now addr size) := by
  have sameSize := twins.alike.view.thread.pageTableSize
  unfold Machine.readMem
  rcases twins.ready.locate now addr sized member false with
    ⟨bad, located⟩ | ⟨good, fits, page, middle, located, alike, ready, resident⟩
  all_goals
    rcases twins.ready'.locate now addr sized member false with
      ⟨bad', located'⟩ | ⟨good', -, frame, middle', located', alike', ready', resident'⟩
  · -- Both are refused.
    rw [located, located']
    exact .some (.refused (twins.raiseException addr))
  · -- One cannot be refused alone, since the address and the size are the same.
    exact absurd (sameSize.symm ▸ bad) good'
  · exact absurd (sameSize ▸ bad') good
  · have twins' : Twins pages middle middle' := twins.joined alike ready alike' ready'
    -- The bytes are those of the same page.
    have same := twins'.alike.view.slice resident resident' fits
    simp only [located, located', Option.bind_eq_bind, Option.bind_some, same]
    -- The bytes have a value, or the machine has none on either side.
    cases VmKernel.valueOf _ with
    | none => exact .none
    | some value => exact .some (.ok _ alike twins')

/-- What is written is written on both, wherever the page is. -/
theorem writing (twins : Twins pages first second) (sized : size = 1 ∨ size = 2 ∨ size = 4)
    (member : addr.toNat / pageSize ∈ pages) (value pcAfter : Word) :
    Option.Rel Ends (first.writing now addr size value pcAfter)
      (second.writing now addr size value pcAfter) := by
  have sameSize := twins.alike.view.thread.pageTableSize
  unfold Machine.writing Machine.writeMem
  -- Both are refused, or both find the page, though maybe in different frames.
  rcases twins.ready.locate now addr sized member true with
    ⟨bad, located⟩ | ⟨good, fits, page, middle, located, alike, ready, resident⟩
  all_goals
    rcases twins.ready'.locate now addr sized member true with
      ⟨bad', located'⟩ | ⟨good', -, frame, middle', located', alike', ready', resident'⟩
  · -- Both are refused.
    rw [located, located']
    exact .some (.trapped _ (by decide) (twins.raiseException addr))
  · exact absurd (sameSize.symm ▸ bad) good'
  · exact absurd (sameSize ▸ bad') good
  · have twins' : Twins pages middle middle' := twins.joined alike ready alike' ready'
    simp only [located, located', Option.bind_eq_bind, Option.bind_some]
    -- The word is written into the same page on both sides.
    refine .some (.finished pcAfter 0 0 ⟨twins'.alike.registers, ?_⟩)
    exact twins'.alike.view.store resident resident' ready.kernel.paged.table
      ready'.kernel.paged.table (by rw [length_leBytes]; exact fits)

/-- Go on with what is read on both machines. -/
theorem reading (twins : Twins pages first second) (sized : size = 1 ∨ size = 2 ∨ size = 4)
    (member : addr.toNat / pageSize ∈ pages) {rest rest' : Word → Machine → Option Executed}
    (next : ∀ value middle middle', first.readMem now addr size = some (.ok value, middle) →
      first.Alike middle → Twins pages middle middle' →
      Option.Rel Ends (rest value middle) (rest' value middle')) :
    Option.Rel Ends (first.reading now addr size rest) (second.reading now addr size rest') := by
  have related : Option.Rel (Answers pages first) (first.readMem now addr size)
      (second.readMem now addr size) := twins.readMem sized member
  unfold Machine.reading
  -- What the two read is the same, so that they go on alike.
  cases read : first.readMem now addr size with
  -- If the first gets no further, nor does the second.
  | none =>
    rw [read] at related
    generalize second.readMem now addr size = answer at related
    cases related
    exact .none
  | some answer =>
    rw [read] at related
    generalize second.readMem now addr size = answer' at related
    cases related with
    | some answers =>
      cases answers with
      -- Both go on with the same word, or both are trapped.
      | ok value same twins' => exact next value _ _ read same twins'
      | refused alike => exact .some (.trapped _ (by decide) alike)

end Access

/-- Registers are written one after the other on both machines. -/
theorem writes (writes : List (Nat × Word)) :
    ∀ {first second : Machine}, first.Alike second →
      Alike (writes.foldl (fun machine write => machine.write write.1 write.2) first)
        (writes.foldl (fun machine write => machine.write write.1 write.2) second) := by
  induction writes with
  | nil => exact fun alike => alike
  | cons write rest ih => exact fun alike => ih (alike.write write.1 write.2)

/-- An effect is the same on both machines, if the page of its data is one of the pages. -/
theorem perform (twins : Twins pages first second) (now : Int) {instr : Instruction}
    (small : instr.rs < numGPRegs ∧ instr.rt < numGPRegs ∧ instr.rd < numGPRegs)
    {effect : Effect} (keeps : effect.Keeps instr)
    (member : ∀ addr ∈ effect.address, addr.toNat / pageSize ∈ pages) :
    Option.Rel Ends (effect.perform first now) (effect.perform second now) := by
  have general : ∀ {x : Nat}, x < numGPRegs → x ≠ badVAddrReg := fun less =>
    Nat.ne_of_lt (Nat.lt_trans less (by decide))
  -- The cases are those of an effect.
  cases effect with
  | stuck => exact .none
  | raise which badVAddr => exact .some (.trapped which keeps (twins.raiseException badVAddr))
  -- What is computed is the same, as the effect is.
  | compute writes pcAfter => exact .some (.finished pcAfter 0 0 (Twins.writes writes twins.alike))
  | load addr size rt pcAfter value =>
    refine twins.reading keeps.2 (member addr rfl) fun word middle middle' _ _ moved => ?_
    -- What a merging load finds in its target is the same.
    have same : middle'.merged rt = middle.merged rt := by
      unfold Machine.merged
      rw [moved.alike.registers loadReg (by decide), moved.alike.registers loadValueReg (by decide),
        moved.alike.registers rt (general (keeps.1 ▸ small.2.1))]
    rw [same]
    exact .some (.finished pcAfter rt _ moved.alike)
  -- A store writes the same word.
  | store addr size value pcAfter => exact twins.writing keeps (member addr rfl) value pcAfter
  -- A merging store reads the word and then writes it.
  | merge addr rt pcAfter value =>
    refine twins.reading (.inr (.inr rfl)) (member addr rfl) fun word middle middle' _ _ moved => ?_
    rw [moved.alike.registers rt (general (keeps.1 ▸ small.2.1))]
    exact moved.writing (.inr (.inr rfl)) (member addr rfl) _ pcAfter

/-- A fetched instruction is the same on both machines. -/
theorem fetchExecute (twins : Twins pages first second) (now : Int)
    (code : (first.registers pcReg).toNat / pageSize ∈ pages)
    (data : ∀ raw, first.Fetches now raw →
      ∀ addr ∈ ((Instruction.decode raw).effect first.registers).address,
        addr.toNat / pageSize ∈ pages) :
    Option.Rel Ends (first.fetchExecute now) (second.fetchExecute now) := by
  unfold Machine.fetchExecute
  -- The word at the program counter is fetched on both sides.
  rw [twins.alike.registers pcReg (by decide)]
  refine twins.reading (.inr (.inr rfl)) code fun raw middle middle' fetched same moved => ?_
  have small := Instruction.decode_small raw
  -- The operands are the same, so the effect is.
  have congr : ∀ {machine other : Machine}, machine.Alike other →
      (Instruction.decode raw).effect other.registers =
        (Instruction.decode raw).effect machine.registers := fun alike =>
    Instruction.effect_congr _
      (fun x touched => alike.registers x (Nat.ne_of_lt
        (Nat.lt_trans (Instruction.touches_small _ small touched) (by decide))))
      (alike.registers _ (by decide)) (alike.registers _ (by decide))
      (alike.registers _ (by decide))
  rw [execute_eq, execute_eq, congr moved.alike]
  -- What follows is the same effect.
  refine moved.perform now small (Instruction.effect_keeps _ _) ?_
  rw [congr same]
  exact data raw ⟨middle, fetched⟩

end Twins

/-- The system call that adds keeps two machines alike. -/
theorem Alike.sysAdd (alike : first.Alike second) : first.sysAdd.Alike second.sysAdd := by
  refine ⟨fun x different => ?_, alike.view⟩
  -- The operands and the program counters are the same.
  simp (disch := decide) only [Machine.sysAdd, write_registers, alike.registers x different,
    alike.registers]

/-- The program counters advance alike. -/
theorem Alike.advance (alike : first.Alike second) (pcAfter : Word) :
    (first.advance pcAfter).Alike (second.advance pcAfter) := by
  refine ⟨fun x different => ?_, alike.view⟩
  simp (disch := decide) only [Machine.advance, write_registers, alike.registers x different,
    alike.registers]

/-- One instruction on the reference machine is the same on both machines. -/
theorem Twins.referenceInstruction (twins : Twins pages first second) (now : Int)
    (code : (first.registers pcReg).toNat / pageSize ∈ pages)
    (data : ∀ raw, first.Fetches now raw →
      ∀ addr ∈ ((Instruction.decode raw).effect first.registers).address,
        addr.toNat / pageSize ∈ pages) :
    Option.Rel Alike (first.referenceInstruction now) (second.referenceInstruction now) := by
  unfold Machine.referenceInstruction
  refine rel_bind (twins.fetchExecute now code data) fun ended ended' ends => ?_
  -- The load is carried out, and the program counters go on.
  cases ends with
  | finished pcAfter nextLoadReg value alike =>
    exact .some (((alike.write nextLoadReg value).write 0 0).advance pcAfter)
  | trapped which other alike =>
    dsimp only
    unfold Machine.exceptionHandler
    split
    · -- The number of the system call is the same.
      rw [alike.registers 2 (by decide)]
      split
      · exact .some alike.sysAdd
      · exact .none
    · -- No other exception is a system call.
      exact absurd rfl other
    · exact .none

/-- The pages that an instruction touches: that of its code, and that of its data. -/
def touchedPages (machine : Machine) (now : Int) : Finset Nat :=
  let code := (machine.registers pcReg).toNat / pageSize
  match machine.readMem now (machine.registers pcReg) 4 with
  | some (.ok raw, _) =>
    match ((Instruction.decode raw).effect machine.registers).address with
    | some addr => {code, addr.toNat / pageSize}
    | none => {code}
  | some (.error _, _) => {code}
  | none => {code}

/-- The code is on a page that is touched. -/
theorem code_touched (machine : Machine) (now : Int) :
    (machine.registers pcReg).toNat / pageSize ∈ machine.touchedPages now := by
  unfold touchedPages
  dsimp only
  split
  · split <;> simp
  all_goals simp

/-- The data is on a page that is touched. -/
theorem data_touched {now : Int} {raw : Word} (fetched : machine.Fetches now raw) {addr : Word}
    (named : addr ∈ ((Instruction.decode raw).effect machine.registers).address) :
    addr.toNat / pageSize ∈ machine.touchedPages now := by
  obtain ⟨after, fetched⟩ := fetched
  unfold touchedPages
  rw [fetched]
  dsimp only
  rw [Option.mem_def.mp named]
  simp

/-- Keeping out of the load-delay slot is about the instruction that is fetched. -/
theorem keepsOut_iff (now : Int) :
    machine.KeepsOut (machine.readMem now (machine.registers pcReg) 4) ↔
      ∀ raw, machine.Fetches now raw →
        ∀ x ∈ (Instruction.decode raw).touches, ¬ machine.Pending x := by
  unfold Fetches
  cases machine.readMem now (machine.registers pcReg) 4 with
  | none => simp [KeepsOut]
  | some answer =>
    obtain ⟨found, after⟩ := answer
    cases found <;> simp [KeepsOut]

/-- The instruction that is fetched is the same once the pending load has been carried out. -/
theorem WellFormed.fetches_settle (wellFormed : machine.WellFormed) (now : Int) (raw : Word) :
    machine.settle.Fetches now raw ↔ machine.Fetches now raw := by
  have related : Option.Rel (Accessed machine)
      (machine.readMem now (machine.registers pcReg) 4)
      (machine.settle.readMem now (machine.registers pcReg) 4) := wellFormed.follows.lags.readMem
  unfold Fetches
  rw [settle_special wellFormed (x := pcReg) (by decide) (by decide) (by decide)]
  generalize machine.readMem now (machine.registers pcReg) 4 = before at related
  generalize machine.settle.readMem now (machine.registers pcReg) 4 = answer at related
  cases related with
  | none => simp
  | some accessed => cases accessed <;> simp

/-- The same instruction is fetched on both machines. -/
theorem Twins.fetches (twins : Twins pages first second) {now : Int}
    (code : (first.registers pcReg).toNat / pageSize ∈ pages) {raw : Word}
    (fetched : second.Fetches now raw) : first.Fetches now raw := by
  have related : Option.Rel (Answers pages first)
      (first.readMem now (first.registers pcReg) 4)
      (second.readMem now (first.registers pcReg) 4) := twins.readMem (.inr (.inr rfl)) code
  unfold Fetches at fetched ⊢
  rw [twins.alike.registers pcReg (by decide)] at fetched
  obtain ⟨after, fetched⟩ := fetched
  -- What the first one reads is related to it.
  rw [fetched] at related
  generalize first.readMem now (first.registers pcReg) 4 = answer at related
  cases related with
  | some answers =>
    cases answers with
    | ok value same twins' => exact ⟨_, rfl⟩

end Machine

/--
Page faults are invisible to an instruction.

The two machines have the same registers and the same virtual memory, but either may have pages in
memory that the other one has not. On both of them, each page that the instruction touches and that
is not in memory has a full page in the executable and a free frame, and the TLB agrees with the
page table. If the instruction keeps out of the load-delay slot and completes on one machine, it
completes on the other one, and leaves the same registers and the same virtual memory.
-/
theorem pageFaults_invisible (first second : Machine) (now : Int) (wellFormed : first.WellFormed)
    (registers : second.registers = first.registers)
    (view : first.kernel.SameView second.kernel)
    (ready : first.kernel.Ready (first.touchedPages now))
    (ready' : second.kernel.Ready (first.touchedPages now))
    (keepsOut : first.KeepsOut (first.readMem now (first.registers pcReg) 4)) (after : Machine)
    (completed : first.oneInstruction now = some after) :
    ∃ after', second.oneInstruction now = some after' ∧
      (∀ x, x ≠ badVAddrReg → after'.settle.registers x = after.settle.registers x) ∧
      (∀ x ∈ [hiReg, loReg, pcReg, nextPCReg, prevPCReg],
        after'.registers x = after.registers x) ∧
      ∀ threadId vpn i, i < pageSize →
        after'.kernel.virtualByte threadId vpn i = after.kernel.virtualByte threadId vpn i := by
  -- The registers of the second machine are those of the first.
  have wellFormed' : second.WellFormed := by
    obtain ⟨zero, target⟩ := wellFormed
    exact ⟨registers ▸ zero, registers ▸ target⟩
  have kept := (Machine.keepsOut_iff now).mp keepsOut
  have follows := wellFormed.follows
  -- With their pending loads carried out, the two machines are twins.
  have twins : Machine.Twins (first.touchedPages now) first.settle second.settle := by
    refine ⟨⟨fun x _ => ?_, view⟩, ⟨Machine.idle_delayedLoad first, ready⟩,
      ⟨Machine.idle_delayedLoad second, ready'⟩⟩
    simp only [Machine.settle, Machine.delayedLoad_registers, registers]
  -- The page of the program counter is among the pages.
  have pc := follows.lags.special (x := pcReg) (by decide) (by decide) (by decide)
  have code : (first.settle.registers pcReg).toNat / pageSize ∈ first.touchedPages now :=
    pc.symm ▸ first.code_touched now
  -- So is that of the data, as the instruction is the same after the load.
  have data : ∀ raw, first.settle.Fetches now raw →
      ∀ addr ∈ ((Instruction.decode raw).effect first.settle.registers).address,
        addr.toNat / pageSize ∈ first.touchedPages now := by
    intro raw fetched addr named
    have fetched := (wellFormed.fetches_settle now raw).mp fetched
    have small := Instruction.decode_small raw
    -- The instruction does not look at the register that the load is pending for.
    have same : (Instruction.decode raw).effect first.settle.registers =
        (Instruction.decode raw).effect first.registers :=
      Instruction.effect_congr _
        (fun x touched => follows.lags.general (Instruction.touches_small _ small touched)
          (kept raw fetched x touched))
        (follows.lags.special (by decide) (by decide) (by decide))
        (follows.lags.special (by decide) (by decide) (by decide))
        (follows.lags.special (by decide) (by decide) (by decide))
    exact Machine.data_touched fetched (same ▸ named)
  -- The second machine fetches the same word, so it keeps out as well.
  have keepsOut' : second.KeepsOut (second.readMem now (second.registers pcReg) 4) := by
    refine (Machine.keepsOut_iff now).mpr fun raw fetched x touched pending => ?_
    have fetched' := twins.fetches code ((wellFormed'.fetches_settle now raw).mpr fetched)
    refine kept raw ((wellFormed.fetches_settle now raw).mp fetched') x touched ?_
    unfold Machine.Pending at pending ⊢
    rwa [registers] at pending
  -- The reference machine is ahead on both sides, and does the same on both.
  have stepped : Option.Rel Machine.Follows (first.step (.instruction now))
      (first.settle.referenceStep (.instruction now)) := follows.step keepsOut
  have stepped' : Option.Rel Machine.Follows (second.step (.instruction now))
      (second.settle.referenceStep (.instruction now)) := wellFormed'.follows.step keepsOut'
  simp only [Machine.step, Machine.referenceStep] at stepped stepped'
  have related := twins.referenceInstruction now code data
  -- Both have ended in machines that the reference machine has reached.
  rw [completed] at stepped
  generalize first.settle.referenceInstruction now = ahead at stepped related
  generalize second.settle.referenceInstruction now = ahead' at stepped' related
  generalize second.oneInstruction now = ended at stepped'
  cases stepped with
  | @some _ reference follows =>
    cases related with
    | @some _ reference' alike =>
      cases stepped' with
      | @some after' _ follows' =>
        refine ⟨after', rfl, fun x different => ?_, fun x member => ?_,
          fun threadId vpn i small => ?_⟩
        · -- The registers are those of the two reference machines.
          rw [← follows.eq_settle, ← follows'.eq_settle]
          exact alike.registers x different
        · -- The special registers are not concerned by the load.
          have special : numGPRegs ≤ x ∧ x ≠ loadReg ∧ x ≠ loadValueReg ∧ x ≠ badVAddrReg := by
            simp only [List.mem_cons, List.not_mem_nil, or_false] at member
            rcases member with rfl | rfl | rfl | rfl | rfl <;> decide
          obtain ⟨large, notLoad, notValue, different⟩ := special
          rw [← follows.lags.special large notLoad notValue,
            ← follows'.lags.special large notLoad notValue]
          exact alike.registers x different
        · -- So is the memory that the threads see.
          rw [← follows.lags.kernel, ← follows'.lags.kernel]
          exact alike.view.bytes threadId vpn i small

/-- An object file with one page, whose first instruction puts 7 into r6. -/
def sevenProgram : List Byte := emptyProgram ++ leBytes 4 0x24060007 ++ .replicate 124 0

/-- The events that load the program. -/
def sevenLaunch : List (Int × VmEvent) :=
  [(1, .create 0 [1] [] ⟨0, 0, [], AddrSpace.freshEntry⟩), (2, .switchTo 0)]

/-- The machine when it is switched on. -/
def sevenBoot : VmKernel :=
  .boot (fun _ => some sevenProgram) (fun _ => 5) (fun _ _ => ⟨0, 0, true, 0, 0⟩)
    (fun _ => ⟨0, 0⟩) 0

/-- The program has been loaded, and none of its pages is in memory. -/
def sevenLoaded : VmKernel := (replay VmKernel.step sevenBoot sevenLaunch).getD sevenBoot

/-- The page of its code has been brought in. -/
def sevenFetched : VmKernel := (sevenLoaded.pageFaultHandler 3 0).getD sevenLoaded

/-- A machine that starts to run the program. -/
def sevenMachine (kernel : VmKernel) : Machine := Machine.initRegisters ⟨fun _ => 0, kernel⟩ 9

/-- The instruction does the same before its page has been brought in, and afterwards. -/
theorem pageFaults_invisible_seven :
    ∃ after after', (sevenMachine sevenFetched).oneInstruction 4 = some after ∧
      (sevenMachine sevenLoaded).oneInstruction 4 = some after' ∧
      after'.settle.registers 6 = after.settle.registers 6 ∧ after.settle.registers 6 = 7 := by
  -- The pages of the first thread have been mapped by the launch.
  obtain ⟨kernel, ran, paged⟩ := replay_progress
    (fun _ _ paged admitted => VmKernel.Paged.step paged admitted)
    (VmKernel.Paged.boot _ _ _ _ _ : sevenBoot.Paged)
    (by decide +kernel : EveryStep VmKernel.step VmKernel.Admitted sevenBoot sevenLaunch)
  have ran : replay VmKernel.step sevenBoot sevenLaunch = some kernel := ran
  obtain rfl : sevenLoaded = kernel := by rw [sevenLoaded, ran, Option.getD_some]
  -- Page 0 is not in memory, so that the first fetch faults, and the fault is served.
  have missing : sevenLoaded.Missing 0 := by decide +kernel
  have ready : sevenLoaded.Ready {0} := by
    refine ⟨paged, rfl, ?_, ?_, by decide +kernel⟩
    · intro addr way valid
      cases valid
    · decide +kernel
  -- The fault brings page 0 in, and the thread sees the same memory.
  obtain ⟨served, page, handled, ready', view, -⟩ :=
    ready.fault (Finset.mem_singleton_self 0) missing 3
  obtain rfl : sevenFetched = served := by rw [sevenFetched, handled, Option.getD_some]
  -- The registers are those of the start on both sides.
  have same : ∀ kernel other, (sevenMachine other).registers = (sevenMachine kernel).registers :=
    fun _ _ => rfl
  -- The instruction touches no other page, and no load is pending.
  have touched : (sevenMachine sevenFetched).touchedPages 4 = {0} := by decide +kernel
  have keepsOut : (sevenMachine sevenFetched).KeepsOut ((sevenMachine sevenFetched).readMem 4
      ((sevenMachine sevenFetched).registers pcReg) 4) := by decide +kernel
  have ends : ((sevenMachine sevenFetched).oneInstruction 4).isSome = true := by decide +kernel
  obtain ⟨after, completed⟩ := Option.isSome_iff_exists.mp ends
  obtain ⟨after', completed', registers, -⟩ := pageFaults_invisible (sevenMachine sevenFetched)
    (sevenMachine sevenLoaded) 4 (Machine.wellFormed_initRegisters _ _) (same _ _) view.symm
    (touched ▸ ready') (touched ▸ ready) keepsOut after completed
  -- The sixth register has got the seven.
  refine ⟨after, after', completed, completed', registers 6 (by decide), ?_⟩
  have seven : ((sevenMachine sevenFetched).oneInstruction 4).map
      (fun machine => machine.settle.registers 6) = some 7 := by decide +kernel
  rw [completed] at seven
  exact Option.some.inj seven

end Nachos
