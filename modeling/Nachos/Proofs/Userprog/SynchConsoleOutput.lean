import Nachos.Proofs.Threads.Lock
import Nachos.Theory.Linearizable
import Nachos.Userprog.SynchConsoleOutput

/-! The synchronous display is never asked while busy, and shows what the calls wrote one by one. -/

namespace Nachos

section

variable {Thread : Type} [DecidableEq Thread]

/-- The display has the character of this call, and the call has not seen the interrupt. -/
def SynchOutputStage.awaits : SynchOutputStage → Bool
  | .waiting | .parked => true
  | .idle | .entering _ | .leaving => false

namespace SynchOutputSystem

/-- What a step can do: one line for each event, and two for each test of `P`. -/
theorem step_cases {sys next : SynchOutputSystem Thread} {event : SynchOutputEvent Thread}
    (stepped : sys.step event = some next) :
    (∃ thread ch, event = .call thread ch ∧ sys.stage thread = .idle ∧
      next = sys.move thread (.entering ch)) ∨
    (∃ piece lock, event = .lock piece ∧ (sys.stage piece.thread).allows piece = true ∧
      sys.lock.step piece = some lock ∧
      next = { sys with lock }.move piece.thread ((sys.stage piece.thread).after piece)) ∨
    (∃ thread ch, event = .putChar thread ∧ sys.stage thread = .entering ch ∧
      sys.lock.stage thread = .holding ∧ next = sys.putChar thread ch) ∨
    (∃ thread, event = .p thread ∧ sys.stage thread = .waiting ∧ sys.waitFor.value ≠ 0 ∧
      next = { sys with waitFor :=
        { sys.waitFor with value := sys.waitFor.value - 1 } }.move thread .leaving) ∨
    (∃ thread, event = .p thread ∧ sys.stage thread = .waiting ∧ sys.waitFor.value = 0 ∧
      next = { sys with waitFor :=
        { sys.waitFor with queue := sys.waitFor.queue ++ [thread] } }.move thread .parked) ∨
    (event = .interrupt ∧ sys.consoleOutput.pending ≠ 0 ∧ next = sys.interrupt) := by
  -- By cases on the event, and for a test of P on the value it finds.
  cases event with
  | call thread ch =>
    cases stage : sys.stage thread <;> simp only [step, stage] at stepped <;> cases stepped
    exact .inl ⟨thread, ch, rfl, stage, rfl⟩
  -- What the lock does is what the step of the lock is.
  | lock piece =>
    simp only [step, Option.ite_none_right_eq_some, Option.map_eq_some_iff] at stepped
    obtain ⟨allowed, lock, moved, rfl⟩ := stepped
    exact .inr (.inl ⟨piece, lock, rfl, allowed, moved, rfl⟩)
  | putChar thread =>
    cases stage : sys.stage thread <;> simp only [step, stage, Option.ite_none_right_eq_some,
      reduceCtorEq] at stepped
    obtain ⟨holding, stepped⟩ := stepped
    exact .inr (.inr (.inl ⟨thread, _, rfl, stage, holding, (Option.some.inj stepped).symm⟩))
  | p thread =>
    cases stage : sys.stage thread <;> simp only [step, stage, reduceCtorEq] at stepped
    -- The thread goes to sleep at 0, and else takes the unit.
    by_cases zero : sys.waitFor.value = 0
    · simp only [Semaphore.test, if_pos zero, Option.some.injEq] at stepped
      exact .inr (.inr (.inr (.inr (.inl ⟨thread, rfl, stage, zero, stepped.symm⟩))))
    · simp only [Semaphore.test, if_neg zero, Option.some.injEq] at stepped
      exact .inr (.inr (.inr (.inl ⟨thread, rfl, stage, zero, stepped.symm⟩)))
  | interrupt =>
    simp only [step, Option.ite_none_left_eq_some, Option.some.injEq] at stepped
    exact .inr (.inr (.inr (.inr (.inr ⟨rfl, stepped.1, stepped.2.symm⟩))))

/-- Where the lock has a thread, by the stage of its call. -/
def Placed (sys : SynchOutputSystem Thread) (thread : Thread) : SynchOutputStage → Prop
  | .idle => sys.lock.stage thread = .outside
  | .entering _ => sys.lock.stage thread ≠ .vacated
  | .waiting | .parked => sys.lock.stage thread = .holding
  | .leaving => sys.lock.stage thread = .holding ∨ sys.lock.stage thread = .vacated

/-- The display and the semaphore between two characters. -/
structure Resting (sys : SynchOutputSystem Thread) : Prop where
  putBusy : sys.consoleOutput.putBusy = false
  pending : sys.consoleOutput.pending = 0
  waitFor : sys.waitFor = { value := 0, queue := [] }
  nobody : ∀ thread, (sys.stage thread).awaits = false

/-- The display and the semaphore while the display is at work on the character of a thread. -/
structure Writing (sys : SynchOutputSystem Thread) (thread : Thread) : Prop where
  putBusy : sys.consoleOutput.putBusy = true
  pending : sys.consoleOutput.pending = 1
  owner : (sys.stage thread = .waiting ∧ sys.waitFor = { value := 0, queue := [] }) ∨
    (sys.stage thread = .parked ∧ sys.waitFor = { value := 0, queue := [thread] })

/-- The display and the semaphore when the interrupt has come, and the thread has not seen it. -/
structure Written (sys : SynchOutputSystem Thread) (thread : Thread) : Prop where
  putBusy : sys.consoleOutput.putBusy = false
  pending : sys.consoleOutput.pending = 0
  waitFor : sys.waitFor = { value := 1, queue := [] }
  owner : sys.stage thread = .waiting

/-- What the display is doing. -/
def Device (sys : SynchOutputSystem Thread) : Prop :=
  sys.Resting ∨ ∃ thread, sys.Writing thread ∨ sys.Written thread

/-- What every interleaving of the calls and the interrupts keeps. -/
structure Invariant (sys : SynchOutputSystem Thread) : Prop where
  locked : sys.lock.Invariant
  sound : sys.aborted = false
  placed : ∀ thread, sys.Placed thread (sys.stage thread)
  device : sys.Device
  -- Every character on the display has had its interrupt, but for the one that is under way.
  counted : sys.consoleOutput.writeFile.length =
    sys.consoleOutput.numConsoleCharsWritten + sys.consoleOutput.pending

variable {sys next : SynchOutputSystem Thread} {thread : Thread}

omit [DecidableEq Thread] in
/-- A new display satisfies the invariant. -/
theorem invariant_new : (new : SynchOutputSystem Thread).Invariant where
  locked := LockSystem.invariant_new
  sound := rfl
  placed := fun _ => rfl
  device := .inl ⟨rfl, rfl, rfl, fun _ => rfl⟩
  counted := rfl

omit [DecidableEq Thread] in
/-- A thread that awaits the interrupt has the lock. -/
theorem Invariant.holding_of_awaits (inv : sys.Invariant)
    (awaits : (sys.stage thread).awaits = true) : sys.lock.stage thread = .holding := by
  have placed := inv.placed thread
  cases stage : sys.stage thread with
  | waiting | parked =>
    rw [stage] at placed
    exact placed
  | _ => simp [stage, SynchOutputStage.awaits] at awaits

omit [DecidableEq Thread] in
/-- A thread that awaits the interrupt keeps everyone else out of the lock. -/
theorem Invariant.alone (inv : sys.Invariant) {other : Thread}
    (awaits : (sys.stage thread).awaits = true) (past : (sys.lock.stage other).pastP = true) :
    thread = other :=
  inv.locked.exclusive (by rw [inv.holding_of_awaits awaits]; rfl) past

omit [DecidableEq Thread] in
/-- While a thread that awaits nothing has the lock, the display rests. -/
theorem Invariant.resting (inv : sys.Invariant) (past : (sys.lock.stage thread).pastP = true)
    (without : (sys.stage thread).awaits = false) : sys.Resting := by
  -- Whoever awaits the interrupt would be the thread itself.
  have nobody : ∀ owner, (sys.stage owner).awaits = false := fun owner => by
    by_contra awaits
    have same : owner = thread := inv.alone (by simpa using awaits) past
    rw [same] at awaits
    exact awaits without
  -- The display rests, or somebody awaits it.
  rcases inv.device with resting | ⟨owner, writing | written⟩
  · exact resting
  · have awaits := nobody owner
    rcases writing.owner with ⟨there, -⟩ | ⟨there, -⟩ <;> rw [there] at awaits <;> cases awaits
  · have awaits := nobody owner
    rw [written.owner] at awaits
    cases awaits

omit [DecidableEq Thread] in
/-- A thread sleeps only while the interrupt that wakes it is scheduled. -/
theorem Invariant.pending_of_parked (inv : sys.Invariant) (parked : sys.stage thread = .parked) :
    sys.consoleOutput.pending = 1 := by
  have placed := inv.placed thread
  rw [parked] at placed
  have past : (sys.lock.stage thread).pastP = true := by
    rw [show sys.lock.stage thread = .holding from placed]
    rfl
  -- By what the display is doing.
  rcases inv.device with resting | ⟨owner, writing | written⟩
  · -- At rest nobody sleeps.
    have nobody := resting.nobody thread
    rw [parked] at nobody
    cases nobody
  · exact writing.pending
  · -- The thread that has not seen its interrupt yet is awake.
    have same : owner = thread := inv.alone (by rw [written.owner]; rfl) past
    have there := written.owner
    rw [same, parked] at there
    cases there

omit [DecidableEq Thread] in
/-- What is said of a thread that stays where it is goes on to hold. -/
theorem Placed.keep {stage : SynchOutputStage} (placed : sys.Placed thread stage)
    (moved : next.lock.stage thread = sys.lock.stage thread ∨
      (sys.lock.stage thread = .asleep ∧ next.lock.stage thread = .acquiring)) :
    next.Placed thread stage := by
  -- If it has not moved in the lock, what is said of it is the same.
  rcases moved with same | ⟨asleep, acquiring⟩
  · cases stage <;> simpa only [Placed, same] using placed
  · -- Only in the Acquire of a call does a thread sleep for the lock.
    cases stage with
    | entering ch =>
      change next.lock.stage thread ≠ .vacated
      simp [acquiring]
    | _ => simp_all [Placed]

/-- A thread may move to a stage that the lock has it at, and the others stay where they are. -/
theorem Invariant.placed_move (inv : sys.Invariant) {stage : SynchOutputStage}
    (there : sys.Placed thread stage) (other : Thread) :
    sys.Placed other ((sys.move thread stage).stage other) := by
  by_cases same : other = thread
  · rwa [same, move_stage_self]
  · rw [move_stage_of_ne _ _ _ _ same]
    exact inv.placed other

/-- A thread that moves between stages in which it awaits nothing leaves the display as it is. -/
theorem Device.move (device : sys.Device) (lock : LockSystem Thread) {stage : SynchOutputStage}
    (before : (sys.stage thread).awaits = false) (after : stage.awaits = false) :
    ({ sys with lock }.move thread stage).Device := by
  -- Whoever awaits the interrupt is another thread, and stays where it is.
  have stays : ∀ {owner there}, sys.stage owner = there → there.awaits = true →
      ({ sys with lock }.move thread stage).stage owner = there := by
    intro owner there here awaits
    have apart : owner ≠ thread := fun same => by
      rw [← same, here, awaits] at before
      cases before
    rw [move_stage_of_ne _ _ _ _ apart]
    exact here
  -- By what the display is doing.
  rcases device with resting | ⟨owner, writing | written⟩
  · -- At rest nobody awaits it, and the thread does not come to.
    refine .inl ⟨resting.putBusy, resting.pending, resting.waitFor, fun other => ?_⟩
    by_cases same : other = thread
    · rw [same, move_stage_self, after]
    · rw [move_stage_of_ne _ _ _ _ same]
      exact resting.nobody other
  · -- The owner of the character is where it was, awake or asleep.
    refine .inr ⟨owner, .inl ⟨writing.putBusy, writing.pending, ?_⟩⟩
    rcases writing.owner with ⟨there, zero⟩ | ⟨there, zero⟩
    · exact .inl ⟨stays there rfl, zero⟩
    · exact .inr ⟨stays there rfl, zero⟩
  · -- The owner has not seen its interrupt yet, and is where it was.
    exact .inr ⟨owner, .inr ⟨written.putBusy, written.pending, written.waitFor,
      stays written.owner rfl⟩⟩

/-- A piece of the lock keeps the invariant. -/
theorem Invariant.lock_step (inv : sys.Invariant) {piece : LockEvent Thread}
    {lock : LockSystem Thread} (allowed : (sys.stage piece.thread).allows piece = true)
    (stepped : sys.lock.step piece = some lock) :
    ({ sys with lock }.move piece.thread
      ((sys.stage piece.thread).after piece)).Invariant := by
  have moves := inv.locked.step_own stepped
  have placed := inv.placed piece.thread
  -- A thread whose character is with the display does not touch the lock.
  have without : (sys.stage piece.thread).awaits = false := by
    cases stage : sys.stage piece.thread with
    | waiting | parked =>
      rw [stage] at placed allowed
      cases piece <;> simp_all [Placed, LockEvent.Moves, SynchOutputStage.allows]
    | _ => rfl
  -- Nor does it come to await the display by a piece of the lock.
  have stays : ((sys.stage piece.thread).after piece).awaits = false := by
    cases piece <;> cases stage : sys.stage _ <;> simp_all [SynchOutputStage.after,
      SynchOutputStage.awaits]
  refine ⟨LockSystem.invariant_step inv.locked stepped, inv.sound, fun other => ?_,
    inv.device.move lock without stays, inv.counted⟩
  by_cases same : other = piece.thread
  · subst same
    rw [move_stage_self]
    cases stage : sys.stage piece.thread with
    | waiting | parked => rw [stage] at without; cases without
    -- An idle thread does nothing with the lock.
    | idle =>
      rw [stage] at placed allowed
      cases piece <;> simp_all [Placed, LockEvent.Moves, SynchOutputStage.allows]
    -- In Acquire each piece leads on, and none vacates the lock.
    | entering ch =>
      rw [stage] at placed allowed
      have notVacated : lock.stage piece.thread ≠ .vacated := by
        cases piece with
        | acquire thread | hold thread => simp [moves.2]
        | p thread => rcases moves.2 with there | there <;> simp [there]
        | release thread => cases allowed
        | v thread => exact absurd moves.1 placed
      cases piece <;> exact notVacated
    -- In Release each piece leads on to the end.
    | leaving =>
      rw [stage] at placed allowed
      cases piece with
      | acquire thread => cases allowed
      | p thread | hold thread => rcases placed with there | there <;> simp_all [LockEvent.Moves]
      | release thread => exact .inr moves.2
      | v thread => exact moves.2
  · -- The others stay where they are.
    rw [move_stage_of_ne _ _ _ _ same]
    exact (inv.placed other).keep (inv.locked.step_stage stepped same)

/-- The display that rests takes the character, and is then at work on it. -/
theorem Invariant.putChar_eq (inv : sys.Invariant) {ch : Byte}
    (entering : sys.stage thread = .entering ch) (holding : sys.lock.stage thread = .holding) :
    sys.putChar thread ch = { sys with consoleOutput := { sys.consoleOutput with
      writeFile := sys.consoleOutput.writeFile ++ [ch]
      putBusy := true
      pending := sys.consoleOutput.pending + 1 } }.move thread .waiting := by
  have resting := inv.resting (by rw [holding]; rfl) (by rw [entering]; rfl)
  simp [SynchOutputSystem.putChar, ConsoleOutput.putChar, resting.putBusy]

/-- A character that the display is given keeps the invariant: the display was resting. -/
theorem Invariant.putChar_step (inv : sys.Invariant) {ch : Byte}
    (entering : sys.stage thread = .entering ch) (holding : sys.lock.stage thread = .holding) :
    (sys.putChar thread ch).Invariant := by
  have resting := inv.resting (by rw [holding]; rfl) (by rw [entering]; rfl)
  rw [inv.putChar_eq entering holding]
  refine ⟨inv.locked, inv.sound, inv.placed_move holding, .inr ⟨thread, .inl ⟨rfl, ?_, ?_⟩⟩, ?_⟩
  · -- The one interrupt is that of this character.
    change sys.consoleOutput.pending + 1 = 1
    rw [resting.pending]
  · -- The thread awaits it, with the semaphore at 0.
    exact .inl ⟨move_stage_self _ _ _, resting.waitFor⟩
  · -- One more character is written, and one more is pending.
    have counted := inv.counted
    change (sys.consoleOutput.writeFile ++ [ch]).length =
      sys.consoleOutput.numConsoleCharsWritten + (sys.consoleOutput.pending + 1)
    rw [List.length_append, List.length_singleton]
    omega

/-- A test of `P` that finds the unit keeps the invariant: the interrupt has come. -/
theorem Invariant.p_leaving (inv : sys.Invariant) (waiting : sys.stage thread = .waiting)
    (positive : sys.waitFor.value ≠ 0) :
    ({ sys with waitFor := { sys.waitFor with value := sys.waitFor.value - 1 } }.move
      thread .leaving).Invariant := by
  -- The thread has had the lock since it entered.
  have holding : sys.lock.stage thread = .holding := by
    have placed := inv.placed thread
    rwa [waiting] at placed
  have alone : ∀ {owner}, (sys.stage owner).awaits = true → owner = thread :=
    fun awaits => inv.alone awaits (by rw [holding]; rfl)
  -- By what the display is doing, since a unit is there only after the interrupt.
  rcases inv.device with resting | ⟨owner, writing | written⟩
  · rw [resting.waitFor] at positive
    exact absurd rfl positive
  · -- While the character is being written there is no unit.
    rcases writing.owner with ⟨-, zero⟩ | ⟨-, zero⟩ <;> rw [zero] at positive <;>
      exact absurd rfl positive
  · -- The unit is taken, and nobody else awaits anything.
    refine ⟨inv.locked, inv.sound, inv.placed_move (.inl holding), .inl ⟨written.putBusy,
      written.pending, ?_, fun other => ?_⟩, inv.counted⟩
    · -- The semaphore is at 0 again.
      change Semaphore.mk _ _ = _
      rw [written.waitFor]
      rfl
    · -- The thread itself is on its way out.
      by_cases same : other = thread
      · rw [same, move_stage_self]
        rfl
      · rw [move_stage_of_ne _ _ _ _ same]
        exact Bool.eq_false_iff.mpr fun awaits => same (alone awaits)

/-- A test of `P` that finds no unit keeps the invariant: the display is still at work. -/
theorem Invariant.p_parked (inv : sys.Invariant) (waiting : sys.stage thread = .waiting)
    (zero : sys.waitFor.value = 0) :
    ({ sys with waitFor := { sys.waitFor with queue := sys.waitFor.queue ++ [thread] } }.move
      thread .parked).Invariant := by
  -- The thread has had the lock since it entered.
  have holding : sys.lock.stage thread = .holding := by
    have placed := inv.placed thread
    rwa [waiting] at placed
  have alone : ∀ {owner}, (sys.stage owner).awaits = true → owner = thread :=
    fun awaits => inv.alone awaits (by rw [holding]; rfl)
  -- By what the display is doing, which is still writing.
  rcases inv.device with resting | ⟨owner, writing | written⟩
  · -- At rest nobody waits.
    have nobody := resting.nobody thread
    rw [waiting] at nobody
    cases nobody
  · -- The owner of the character is the thread, which now sleeps alone.
    rcases writing.owner with ⟨there, none⟩ | ⟨there, -⟩
    · have same : owner = thread := alone (by rw [there]; rfl)
      subst same
      refine ⟨inv.locked, inv.sound, inv.placed_move holding, .inr ⟨owner, .inl ⟨writing.putBusy,
        writing.pending, .inr ⟨move_stage_self _ _ _, ?_⟩⟩⟩, inv.counted⟩
      change Semaphore.mk _ _ = _
      rw [none]
      rfl
    · -- If the owner sleeps, it is not the thread, which is awake.
      have same : owner = thread := alone (by rw [there]; rfl)
      rw [same, waiting] at there
      cases there
  · -- After the interrupt there is a unit.
    rw [written.waitFor] at zero
    cases zero

/-- The interrupt keeps the invariant: it is that of the one character the display has. -/
theorem Invariant.interrupt_step (inv : sys.Invariant)
    (pending : sys.consoleOutput.pending ≠ 0) : sys.interrupt.Invariant := by
  have counted := inv.counted
  -- By what the display is doing: an interrupt is pending only while it writes.
  rcases inv.device with resting | ⟨owner, writing | written⟩
  · exact absurd resting.pending pending
  · -- The interrupt was the only one, and the character is counted.
    have done : sys.consoleOutput.interrupt.pending = 0 := by
      simp [ConsoleOutput.interrupt, writing.pending]
    have written : sys.consoleOutput.interrupt.writeFile.length =
        sys.consoleOutput.interrupt.numConsoleCharsWritten +
          sys.consoleOutput.interrupt.pending := by
      rw [done]
      simp only [ConsoleOutput.interrupt]
      rw [counted, writing.pending]
    rcases writing.owner with ⟨waiting, zero⟩ | ⟨parked, zero⟩
    · -- The thread is not asleep yet, and will find the unit.
      have result : sys.interrupt = { sys with
          consoleOutput := sys.consoleOutput.interrupt
          waitFor := { value := 1, queue := [] } } := by
        simp only [SynchOutputSystem.interrupt, callBack, zero, Semaphore.v]
        rfl
      rw [result]
      exact ⟨inv.locked, inv.sound, inv.placed, .inr ⟨owner, .inr ⟨rfl, done, rfl, waiting⟩⟩,
        written⟩
    · -- The thread is woken, and will find the unit.
      have result : sys.interrupt = { sys with
          consoleOutput := sys.consoleOutput.interrupt
          waitFor := { value := 1, queue := [] } }.move owner .waiting := by
        simp only [SynchOutputSystem.interrupt, callBack, zero, Semaphore.v]
        rfl
      have holding : sys.lock.stage owner = .holding := by
        have placed := inv.placed owner
        rwa [parked] at placed
      rw [result]
      exact ⟨inv.locked, inv.sound, inv.placed_move holding, .inr ⟨owner, .inr ⟨rfl, done, rfl,
        move_stage_self _ _ _⟩⟩, written⟩
  · exact absurd written.pending pending

/-- Every step keeps the invariant. -/
theorem invariant_step {event : SynchOutputEvent Thread} (inv : sys.Invariant)
    (stepped : sys.step event = some next) : next.Invariant := by
  rcases step_cases stepped with ⟨thread, ch, -, idle, rfl⟩ |
    ⟨piece, lock, -, allowed, moved, rfl⟩ | ⟨thread, ch, -, entering, holding, rfl⟩ |
    ⟨thread, -, waiting, positive, rfl⟩ |
    ⟨thread, -, waiting, zero, rfl⟩ | ⟨-, pending, rfl⟩
  -- A call begins outside the lock. Each other step has a lemma of its own.
  · have placed := inv.placed thread
    rw [idle] at placed
    have entering : sys.Placed thread (.entering ch) := by
      change sys.lock.stage thread ≠ .vacated
      simp [show sys.lock.stage thread = .outside from placed]
    exact ⟨inv.locked, inv.sound, inv.placed_move entering,
      inv.device.move sys.lock (by rw [idle]; rfl) rfl, inv.counted⟩
  · exact inv.lock_step allowed moved
  · exact inv.putChar_step entering holding
  · exact inv.p_leaving waiting positive
  · exact inv.p_parked waiting zero
  · exact inv.interrupt_step pending

/-- How far a call is: it has its effect when the display is given the character. -/
def phase : SynchOutputStage → CallPhase Byte Unit
  | .idle => .idle
  | .entering ch => .called ch
  | .waiting | .parked | .leaving => .done ()

/-- A display that shows a character at once. -/
def display (shown : List Byte) (ch : Byte) : Option (Unit × List Byte) :=
  some ((), shown ++ [ch])

/-- What is seen of a step: calls, and returns from `Release` at the end of a call. -/
def observe (sys : SynchOutputSystem Thread) :
    SynchOutputEvent Thread → SynchOutputSystem Thread → List (Action Thread Byte Unit)
  | .call thread ch, _ => [.call thread ch]
  | .lock (.v thread), _ =>
    match sys.stage thread with
    | .leaving => [.ret thread ()]
    | _ => []
  | _, _ => []

/-- The atomic display behind the system. -/
def atomic (sys : SynchOutputSystem Thread) : Atomic Thread (List Byte) Byte Unit :=
  .ofStages phase sys.consoleOutput.writeFile sys.stage

/-- The atomic display follows a piece of the lock, which is seen only as the return of a call. -/
theorem follows_lock (piece : LockEvent Thread) (lock : LockSystem Thread) :
    sys.atomic.Reaches display (sys.observe (.lock piece) next)
      ({ sys with lock }.move piece.thread ((sys.stage piece.thread).after piece)).atomic := by
  -- By cases on the piece: only the last V of Release returns from a call.
  cases piece with
  | v thread =>
    cases stage : sys.stage thread with
    | leaving =>
      simp only [observe, stage, LockEvent.thread, SynchOutputStage.after]
      exact .leave display (by rw [stage]; rfl) rfl
    -- In any other stage the V moves nobody.
    | _ =>
      simp only [observe, stage, LockEvent.thread, SynchOutputStage.after]
      exact .stay display (by rw [stage])
  -- Every other piece leaves the stage as it is.
  | acquire thread | p thread | hold thread | release thread => exact .stay display rfl

/-- The atomic display follows the interrupt, which is not seen. -/
theorem follows_interrupt (inv : sys.Invariant) (pending : sys.consoleOutput.pending ≠ 0) :
    sys.atomic.Reaches display [] sys.interrupt.atomic := by
  -- A sleeper that wakes up is still in the same phase.
  have waits : ∀ owner, sys.stage owner = .parked → phase .waiting = phase (sys.stage owner) :=
    fun owner parked => by rw [parked]; rfl
  rcases inv.device with resting | ⟨owner, writing | written⟩
  · exact absurd resting.pending pending
  · -- By whether the owner of the character sleeps already.
    rcases writing.owner with ⟨-, zero⟩ | ⟨parked, zero⟩
    · simp only [SynchOutputSystem.interrupt, callBack, zero, Semaphore.v]
      exact .refl display sys.atomic
    · simp only [SynchOutputSystem.interrupt, callBack, zero, Semaphore.v]
      exact .stay display (waits owner parked)
  · exact absurd written.pending pending

/-- The atomic display follows every step. -/
theorem follows_step {event : SynchOutputEvent Thread} (inv : sys.Invariant)
    (stepped : sys.step event = some next) :
    sys.atomic.Reaches display (sys.observe event next) next.atomic := by
  rcases step_cases stepped with ⟨thread, ch, rfl, idle, rfl⟩ | ⟨piece, lock, rfl, -, -, rfl⟩ |
    ⟨thread, ch, rfl, entering, holding, rfl⟩ | ⟨thread, rfl, waiting, -, rfl⟩ |
    ⟨thread, rfl, waiting, -, rfl⟩ | ⟨rfl, pending, rfl⟩
  · exact .enter display (by rw [idle]; rfl) rfl
  · exact follows_lock piece lock
  · -- The character appears, and with it the call has its effect.
    rw [inv.putChar_eq entering holding]
    exact .effect (by rw [entering]; rfl) rfl rfl
  · exact .stay display (by rw [waiting]; rfl)
  · exact .stay display (by rw [waiting]; rfl)
  · exact follows_interrupt inv pending

end SynchOutputSystem

open SynchOutputSystem

/--
The display has one character at a time, in every interleaving of the writers and the interrupts.

It is never given a character while it is busy, and is busy exactly while its one interrupt is
scheduled; every character on it but that one has been counted; a call is at its end only when its
character is done; and a writer sleeps only while the interrupt that wakes it is scheduled.
-/
theorem consoleOutput_oneAtATime (events : List (SynchOutputEvent Thread))
    (sys : SynchOutputSystem Thread) (reached : replay step new events = some sys) :
    sys.aborted = false ∧ sys.lock.aborted = false ∧
    sys.consoleOutput.pending = (if sys.consoleOutput.putBusy then 1 else 0) ∧
    sys.consoleOutput.writeFile.length =
      sys.consoleOutput.numConsoleCharsWritten + sys.consoleOutput.pending ∧
    (∀ thread, sys.stage thread = .leaving → sys.consoleOutput.pending = 0) ∧
    (∀ thread, sys.stage thread = .parked → sys.consoleOutput.pending = 1) := by
  have inv : sys.Invariant := replay_invariant (fun _ _ _ => invariant_step) invariant_new reached
  refine ⟨inv.sound, inv.locked.sound, ?_, inv.counted, fun thread leaving => ?_,
    fun thread parked => ?_⟩
  · -- By what the display is doing.
    rcases inv.device with resting | ⟨owner, writing | written⟩
    · simp [resting.pending, resting.putBusy]
    · simp [writing.pending, writing.putBusy]
    · simp [written.pending, written.putBusy]
  · -- Whoever is leaving has the lock, and awaits nothing.
    have placed := inv.placed thread
    rw [leaving] at placed
    have past : (sys.lock.stage thread).pastP = true := by
      rcases placed with there | there <;> rw [there] <;> rfl
    exact (inv.resting past (by rw [leaving]; rfl)).pending
  · -- A sleeper has its interrupt to come.
    exact inv.pending_of_parked parked

/-- Two writers, the second of which waits for the lock until the first character is done. -/
def twoWriters : List (SynchOutputEvent Bool) :=
  [.call false 0x41, .lock (.acquire false), .lock (.p false), .lock (.hold false),
    .putChar false, .p false, .call true 0x42, .lock (.acquire true), .lock (.p true), .interrupt,
    .p false, .lock (.release false), .lock (.v false), .lock (.p true), .lock (.hold true),
    .putChar true, .p true]

/-- The first character is done, and the interrupt of the second one is still to come. -/
theorem consoleOutput_oneAtATime_twoWriters :
    ∃ sys, replay step new twoWriters = some sys ∧ sys.stage true = .parked ∧
      sys.consoleOutput.pending = 1 ∧ sys.aborted = false := by
  refine ⟨_, rfl, rfl, ?_⟩
  have one := consoleOutput_oneAtATime twoWriters _ rfl
  exact ⟨one.2.2.2.2.2 true rfl, one.1⟩

/--
The synchronous display is linearizable: what it shows is what the calls wrote, one by one.

In every interleaving of the writers and the interrupts, the characters on the display are those of
the calls that have returned, and of some that are under way, in an order that keeps to the order in
which calls returned and began.
-/
theorem consoleOutput_linearizable (events : List (SynchOutputEvent Thread))
    (sys : SynchOutputSystem Thread) (history : List (Action Thread Byte Unit))
    (reached : replay (recording step observe) (new, []) events = some (sys, history)) :
    Linearizable SynchOutputSystem.display [] sys.consoleOutput.writeFile history :=
  linearizable_of_mapping SynchOutputSystem.atomic SynchOutputSystem.Invariant
    (fun _ _ _ => invariant_step) (fun _ _ _ => follows_step) invariant_new rfl reached

/-- Both characters are on the display, and one of the two calls has returned. -/
theorem consoleOutput_linearizable_twoWriters :
    ∃ sys history, replay (recording step observe) (new, []) twoWriters = some (sys, history) ∧
      sys.consoleOutput.writeFile = [0x41, 0x42] ∧
      history = [.call false 0x41, .call true 0x42, .ret false ()] ∧
      Linearizable SynchOutputSystem.display [] [0x41, 0x42] history := by
  refine ⟨_, _, rfl, rfl, rfl, ?_⟩
  exact consoleOutput_linearizable twoWriters _ _ rfl

end

end Nachos
