import Nachos.Proofs.Machine.Console
import Nachos.Proofs.Threads.Lock
import Nachos.Userprog.SynchConsole

/-! The synchronous keyboard delivers every byte, unless one that is not the last reads as EOF. -/

namespace Nachos

section

variable {Thread : Type} [DecidableEq Thread]

namespace SynchConsoleSystem

/-- What a step can do: one line for each event, and two for each test of `P` and return. -/
theorem step_cases {sys next : SynchConsoleSystem Thread} {event : SynchConsoleEvent Thread}
    (stepped : sys.step event = some next) :
    (∃ thread, event = .call thread ∧ sys.stage thread = .idle ∧ next = sys.move thread .entering) ∨
    (∃ thread lock ch, event = .lock (.v thread) ∧ sys.lock.step (.v thread) = some lock ∧
      sys.stage thread = .leaving ch ∧
      next = { sys with lock, returned := sys.returned ++ [ch] }.move thread .idle) ∨
    (∃ piece lock, event = .lock piece ∧ (sys.stage piece.thread).allows piece = true ∧
      sys.lock.step piece = some lock ∧ (∀ thread ch, piece = .v thread →
        sys.stage thread ≠ .leaving ch) ∧ next = { sys with lock }) ∨
    (∃ thread, event = .p thread ∧ sys.stage thread = .entering ∧
      sys.lock.stage thread = .holding ∧ sys.waitFor.value ≠ 0 ∧
      next = { sys with waitFor :=
        { sys.waitFor with value := sys.waitFor.value - 1 } }.move thread .woken) ∨
    (∃ thread, event = .p thread ∧ sys.stage thread = .entering ∧
      sys.lock.stage thread = .holding ∧ sys.waitFor.value = 0 ∧
      next = { sys with waitFor :=
        { sys.waitFor with queue := sys.waitFor.queue ++ [thread] } }.move thread .parked) ∨
    (∃ thread, event = .getChar thread ∧ sys.stage thread = .woken ∧ next = sys.getChar thread) ∨
    (∃ pollFile, event = .interrupt pollFile ∧ sys.consoleInput.pending ≠ 0 ∧
      next = sys.interrupt pollFile) := by
  -- By cases on the event, and for a test of P on the value it finds.
  cases event with
  | call thread =>
    cases stage : sys.stage thread <;> simp only [step, stage] at stepped <;> cases stepped
    exact .inl ⟨thread, rfl, stage, rfl⟩
  | lock piece =>
    -- What the lock does is what the step of the lock is.
    simp only [step, Option.ite_none_right_eq_some, Option.map_eq_some_iff] at stepped
    obtain ⟨allowed, lock, moved, rfl⟩ := stepped
    -- The last step of leaving the lock returns the character.
    by_cases returns : ∃ thread ch, piece = .v thread ∧ sys.stage thread = .leaving ch
    · obtain ⟨thread, ch, rfl, stage⟩ := returns
      refine .inr (.inl ⟨thread, lock, ch, rfl, moved, stage, ?_⟩)
      simp only [afterLock, LockEvent.thread, stage]
    · -- Any other step of the lock returns nothing.
      refine .inr (.inr (.inl ⟨piece, lock, rfl, allowed, moved, fun thread ch here there =>
        returns ⟨thread, ch, here, there⟩, ?_⟩))
      unfold afterLock
      split
      · rename_i thread ch stage
        exact absurd ⟨thread, ch, rfl, stage⟩ returns
      · rfl
  | p thread =>
    cases stage : sys.stage thread <;> simp only [step, stage, Option.ite_none_right_eq_some,
      reduceCtorEq] at stepped
    obtain ⟨holding, stepped⟩ := stepped
    -- The thread goes to sleep at 0, and else takes the unit.
    by_cases zero : sys.waitFor.value = 0
    · simp only [Semaphore.test, if_pos zero, Option.some.injEq] at stepped
      exact .inr (.inr (.inr (.inr (.inl ⟨thread, rfl, stage, holding, zero, stepped.symm⟩))))
    · simp only [Semaphore.test, if_neg zero, Option.some.injEq] at stepped
      exact .inr (.inr (.inr (.inl ⟨thread, rfl, stage, holding, zero, stepped.symm⟩)))
  -- The thread that was woken takes its character.
  | getChar thread =>
    cases stage : sys.stage thread <;> simp only [step, stage] at stepped <;> cases stepped
    exact .inr (.inr (.inr (.inr (.inr (.inl ⟨thread, rfl, stage, rfl⟩)))))
  -- The interrupt comes if it is pending.
  | interrupt pollFile =>
    simp only [step, Option.ite_none_left_eq_some, Option.some.injEq] at stepped
    exact .inr (.inr (.inr (.inr (.inr (.inr ⟨pollFile, rfl, stepped.1, stepped.2.symm⟩)))))

/-- Where the lock has a thread, by the stage of its call. -/
def Placed (sys : SynchConsoleSystem Thread) (thread : Thread) : SynchConsoleStage → Prop
  | .idle => sys.lock.stage thread = .outside
  | .entering => sys.lock.stage thread ≠ .vacated
  | .parked | .woken => sys.lock.stage thread = .holding
  | .leaving _ => sys.lock.stage thread = .holding ∨ sys.lock.stage thread = .vacated

/-- No wake-up is out, and at most one thread is asleep for the next one. -/
structure Unwoken (waitFor : Semaphore Thread) (stage : Thread → SynchConsoleStage) : Prop where
  value : waitFor.value = 0
  nobody : ∀ thread, stage thread ≠ .woken
  queue : (waitFor.queue = [] ∧ ∀ thread, stage thread ≠ .parked) ∨
    ∃ thread, waitFor.queue = [thread] ∧ stage thread = .parked

/-- A wake-up is out: the semaphore has it, or the thread that gets the character for it next. -/
structure WakeUpOut (waitFor : Semaphore Thread) (stage : Thread → SynchConsoleStage) : Prop where
  queue : waitFor.queue = []
  nobody : ∀ thread, stage thread ≠ .parked
  unit : (waitFor.value = 1 ∧ ∀ thread, stage thread ≠ .woken) ∨
    (waitFor.value = 0 ∧ ∃ thread, stage thread = .woken)

/-- What was taken is returned, except for the character that one call has in hand. -/
def InHand (stage : Thread → SynchConsoleStage) (taken returned : List Byte) : Prop :=
  (taken = returned ∧ ∀ thread ch, stage thread ≠ .leaving ch) ∨
    ∃ thread ch, stage thread = .leaving ch ∧ taken = returned ++ [ch]

/-- What every interleaving of the calls and the interrupts keeps. -/
structure Invariant (stream : List Byte) (sys : SynchConsoleSystem Thread) : Prop where
  locked : sys.lock.Invariant
  sound : sys.aborted = false
  placed : ∀ thread, sys.Placed thread (sys.stage thread)
  inHand : InHand sys.stage sys.taken sys.returned
  -- A wake-up is out exactly while the keyboard does not go on by itself.
  device : (Unwoken sys.waitFor sys.stage ∧ (sys.consoleInput.Polls stream sys.taken ∨
      sys.consoleInput.Ended stream sys.taken)) ∨
    (WakeUpOut sys.waitFor sys.stage ∧ sys.consoleInput.Offers stream sys.taken)

variable {sys next : SynchConsoleSystem Thread} {stream : List Byte}

omit [DecidableEq Thread] in
/-- A new keyboard satisfies the invariant. -/
theorem invariant_new (stream : List Byte) :
    (new stream : SynchConsoleSystem Thread).Invariant stream where
  locked := LockSystem.invariant_new
  sound := rfl
  placed := fun _ => rfl
  inHand := .inl ⟨rfl, nofun⟩
  device := .inl ⟨⟨rfl, nofun, .inl ⟨rfl, nofun⟩⟩, .inl (ConsoleInput.polls_new stream)⟩

end SynchConsoleSystem

/-- The thread has had the lock, and has not given it back. -/
def SynchConsoleStage.inside : SynchConsoleStage → Bool
  | .parked | .woken | .leaving _ => true
  | .idle | .entering => false

/-- The thread waits for a character, or has just got the wake-up for it. -/
def SynchConsoleStage.awaits : SynchConsoleStage → Bool
  | .parked | .woken => true
  | .idle | .entering | .leaving _ => false

namespace SynchConsoleSystem

variable {sys next : SynchConsoleSystem Thread} {stream : List Byte}

omit [DecidableEq Thread] in
/-- A thread inside keeps everyone else out of the lock. -/
theorem Invariant.alone (inv : sys.Invariant stream) {thread other : Thread}
    (inside : (sys.stage thread).inside = true) (past : (sys.lock.stage other).pastP = true) :
    thread = other := by
  have placed := inv.placed thread
  -- Whoever is inside has the lock, and only one thread has passed its P.
  apply inv.locked.exclusive _ past
  cases stage : sys.stage thread with
  -- Outside there is nothing to show.
  | idle | entering => rw [stage] at inside; cases inside
  | parked | woken =>
    rw [stage] at placed
    rw [show sys.lock.stage thread = .holding from placed]
    rfl
  -- A thread with its character is on its way out of the lock.
  | leaving ch =>
    rw [stage] at placed
    rcases placed with there | there <;> rw [there] <;> rfl

omit [DecidableEq Thread] in
/-- What is said of a thread that stays where it is goes on to hold. -/
theorem Placed.keep {thread : Thread} {stage : SynchConsoleStage}
    (placed : sys.Placed thread stage)
    (moved : next.lock.stage thread = sys.lock.stage thread ∨
      (sys.lock.stage thread = .asleep ∧ next.lock.stage thread = .acquiring)) :
    next.Placed thread stage := by
  -- If it has not moved in the lock, what is said of it is the same.
  rcases moved with same | ⟨asleep, acquiring⟩
  · cases stage <;> simpa only [Placed, same] using placed
  · -- Only in the Acquire of a call does a thread sleep for the lock.
    cases stage with
    | entering =>
      show next.lock.stage thread ≠ .vacated
      simp [acquiring]
    | _ => simp_all [Placed]

section

variable {waitFor : Semaphore Thread} {stage : Thread → SynchConsoleStage}
  {thread owner : Thread} {after there : SynchConsoleStage} {taken returned : List Byte}

/-- A stage that nobody is at stays so if the thread goes elsewhere. -/
theorem update_absent (nobody : ∀ other, stage other ≠ there) (different : after ≠ there)
    (other : Thread) : Function.update stage thread after other ≠ there := by
  by_cases same : other = thread
  · rwa [same, Function.update_self]
  · rw [Function.update_of_ne same]
    exact nobody other

/-- A thread stays where it is while another one moves. -/
theorem update_present (placed : stage owner = there) (different : stage thread ≠ there) :
    Function.update stage thread after owner = there := by
  have apart : owner ≠ thread := fun same => different (same ▸ placed)
  rw [Function.update_of_ne apart, placed]

/-- A thread that moves between stages in which it does not wait leaves the sleeper as it is. -/
theorem Unwoken.update (unwoken : Unwoken waitFor stage) (before : (stage thread).awaits = false)
    (goes : after.awaits = false) : Unwoken waitFor (Function.update stage thread after) := by
  refine ⟨unwoken.value, update_absent unwoken.nobody ?_, ?_⟩
  · -- The thread does not come to wait for the semaphore.
    rintro rfl
    cases goes
  · rcases unwoken.queue with ⟨empty, nobody⟩ | ⟨owner, queue, parked⟩
    · -- Nobody sleeps, and the thread does not go to sleep.
      refine .inl ⟨empty, update_absent nobody ?_⟩
      rintro rfl
      cases goes
    · -- The sleeper is another thread, which stays asleep.
      refine .inr ⟨owner, queue, update_present parked fun same => ?_⟩
      rw [same] at before
      cases before

/-- A thread that moves between stages in which it does not wait leaves the wake-up where it is. -/
theorem WakeUpOut.update (out : WakeUpOut waitFor stage) (before : (stage thread).awaits = false)
    (goes : after.awaits = false) : WakeUpOut waitFor (Function.update stage thread after) := by
  refine ⟨out.queue, update_absent out.nobody ?_, ?_⟩
  · -- The thread does not go to sleep.
    rintro rfl
    cases goes
  · rcases out.unit with ⟨one, nobody⟩ | ⟨zero, owner, woken⟩
    · -- The unit lies in the semaphore.
      refine .inl ⟨one, update_absent nobody ?_⟩
      rintro rfl
      cases goes
    · -- A woken thread has it, and that is another one.
      refine .inr ⟨zero, owner, update_present woken fun same => ?_⟩
      rw [same] at before
      cases before

/-- A thread that moves between stages without a character leaves what is in hand as it is. -/
theorem InHand.update (inHand : InHand stage taken returned)
    (before : ∀ ch, stage thread ≠ .leaving ch) (goes : ∀ ch, after ≠ .leaving ch) :
    InHand (Function.update stage thread after) taken returned := by
  rcases inHand with ⟨same, nobody⟩ | ⟨owner, ch, leaving, same⟩
  · exact .inl ⟨same, fun other ch => update_absent (fun other => nobody other ch) (goes ch) other⟩
  · exact .inr ⟨owner, ch, update_present leaving (before ch), same⟩

/-- The one call that has a character in hand returns it after the others. -/
theorem InHand.returns {ch : Byte} (inHand : InHand stage taken returned)
    (leaving : stage thread = .leaving ch)
    (alone : ∀ other got, stage other = .leaving got → other = thread) :
    InHand (Function.update stage thread .idle) taken (returned ++ [ch]) := by
  rcases inHand with ⟨-, nobody⟩ | ⟨owner, last, there, same⟩
  · -- With no character in hand no call could leave with one.
    exact absurd leaving (nobody thread ch)
  · -- The call has the last character that was taken, and now nobody has one.
    obtain rfl : owner = thread := alone owner last there
    rw [there] at leaving
    cases leaving
    refine .inl ⟨same, fun other got => ?_⟩
    by_cases self : other = owner
    · rw [self, Function.update_self]
      exact nofun
    · rw [Function.update_of_ne self]
      exact fun also => self (alone other got also)

/-- A call that takes a character has it in hand, and nothing else was. -/
theorem InHand.takes (inHand : InHand stage taken returned)
    (nobody : ∀ other got, stage other ≠ .leaving got) (ch : Byte) :
    InHand (Function.update stage thread (.leaving ch)) (taken ++ [ch]) returned := by
  rcases inHand with ⟨same, -⟩ | ⟨owner, last, there, -⟩
  · exact .inr ⟨thread, ch, Function.update_self .., by rw [same]⟩
  · exact absurd there (nobody owner last)

end

/-- A thread may move to a stage that the lock has it at, and the others stay where they are. -/
theorem Invariant.placed_update (inv : sys.Invariant stream) {thread : Thread}
    {after : SynchConsoleStage} (there : sys.Placed thread after) (other : Thread) :
    sys.Placed other (Function.update sys.stage thread after other) := by
  by_cases same : other = thread
  · rwa [same, Function.update_self]
  · rw [Function.update_of_ne same]
    exact inv.placed other

/-- A thread that moves between stages in which it does not wait leaves the keyboard alone. -/
theorem Invariant.device_update (inv : sys.Invariant stream) {thread : Thread}
    {after : SynchConsoleStage} (before : (sys.stage thread).awaits = false)
    (goes : after.awaits = false) :
    (Unwoken sys.waitFor (Function.update sys.stage thread after) ∧
      (sys.consoleInput.Polls stream sys.taken ∨ sys.consoleInput.Ended stream sys.taken)) ∨
    (WakeUpOut sys.waitFor (Function.update sys.stage thread after) ∧
      sys.consoleInput.Offers stream sys.taken) := by
  rcases inv.device with ⟨unwoken, device⟩ | ⟨out, offers⟩
  · exact .inl ⟨unwoken.update before goes, device⟩
  · exact .inr ⟨out.update before goes, offers⟩

/-- A piece of the lock that is no return keeps the invariant. -/
theorem Invariant.lock_step (inv : sys.Invariant stream) {piece : LockEvent Thread}
    {lock : LockSystem Thread} (allowed : (sys.stage piece.thread).allows piece = true)
    (stepped : sys.lock.step piece = some lock)
    (stays : ∀ thread ch, piece = .v thread → sys.stage thread ≠ .leaving ch) :
    ({ sys with lock } : SynchConsoleSystem Thread).Invariant stream := by
  have moves := inv.locked.step_own stepped
  refine ⟨LockSystem.invariant_step inv.locked stepped, inv.sound, fun other => ?_, inv.inHand,
    inv.device⟩
  -- A thread that does not move the lock keeps its place.
  by_cases same : other = piece.thread
  · subst same
    have placed := inv.placed piece.thread
    show Placed _ _ (sys.stage piece.thread)
    cases stage : sys.stage piece.thread with
    -- Outside the calls of the lock no piece of it is allowed.
    | idle | parked | woken =>
      rw [stage] at placed allowed
      cases piece <;> simp_all [Placed, LockEvent.Moves, SynchConsoleStage.allows]
    | entering =>
      -- In Acquire each piece leads on, and none vacates the lock.
      rw [stage] at placed allowed
      show lock.stage piece.thread ≠ .vacated
      cases piece with
      | acquire thread | hold thread => simp [moves.2]
      | p thread => rcases moves.2 with there | there <;> simp [there]
      | release thread => cases allowed
      | v thread => exact absurd moves.1 placed
    | leaving ch =>
      -- In Release each piece leads on to the end.
      rw [stage] at placed allowed
      cases piece with
      | acquire thread => cases allowed
      | p thread | hold thread => rcases placed with there | there <;> simp_all [LockEvent.Moves]
      | release thread => exact .inr moves.2
      | v thread => exact absurd stage (stays thread ch rfl)
  · exact (inv.placed other).keep (inv.locked.step_stage stepped same)

/-- The return of a call keeps the invariant, and its character is returned after the others. -/
theorem Invariant.returns (inv : sys.Invariant stream) {thread : Thread} {lock : LockSystem Thread}
    {ch : Byte} (stepped : sys.lock.step (.v thread) = some lock)
    (leaving : sys.stage thread = .leaving ch) :
    ({ sys with lock, returned := sys.returned ++ [ch] }.move thread .idle).Invariant stream := by
  have moves := inv.locked.step_own stepped
  refine ⟨LockSystem.invariant_step inv.locked stepped, inv.sound, fun other => ?_, ?_,
    inv.device_update (by rw [leaving]; rfl) rfl⟩
  · by_cases same : other = thread
    · -- The thread has left the lock, and is idle.
      subst same
      rw [move_stage_self]
      exact moves.2
    · -- The others stay where they are.
      rw [move_stage_of_ne _ _ _ _ same]
      exact (inv.placed other).keep (inv.locked.step_stage stepped same)
  · -- Only one call can have a character in hand.
    have past : (sys.lock.stage thread).pastP = true := by
      rw [show sys.lock.stage thread = .vacated from moves.1]
      rfl
    exact inv.inHand.returns leaving fun other got there => inv.alone (by rw [there]; rfl) past

omit [DecidableEq Thread] in
/-- A thread that has the lock without being inside is the only one that could be. -/
theorem Invariant.nobody_inside (inv : sys.Invariant stream) {thread : Thread}
    (holding : sys.lock.stage thread = .holding) (outside : (sys.stage thread).inside = false)
    (other : Thread) : (sys.stage other).inside = false := by
  by_contra inside
  have same : other = thread := inv.alone (by simpa using inside) (by rw [holding]; rfl)
  rw [← same] at outside
  exact inside outside

/-- A test of `P` that takes the wake-up keeps the invariant. -/
theorem Invariant.p_woken (inv : sys.Invariant stream) {thread : Thread}
    (entering : sys.stage thread = .entering) (holding : sys.lock.stage thread = .holding)
    (positive : sys.waitFor.value ≠ 0) :
    ({ sys with waitFor := { sys.waitFor with value := sys.waitFor.value - 1 } }.move
      thread .woken).Invariant stream := by
  refine ⟨inv.locked, inv.sound, inv.placed_update holding,
    inv.inHand.update (by simp [entering]) nofun, ?_⟩
  -- The wake-up goes from the semaphore to the thread.
  rcases inv.device with ⟨unwoken, -⟩ | ⟨out, offers⟩
  · -- Without a wake-up the value would be 0.
    exact absurd unwoken.value positive
  · -- The unit is in the semaphore, from where it goes to the thread.
    rcases out.unit with ⟨one, -⟩ | ⟨zero, -⟩
    · refine .inr ⟨⟨out.queue, update_absent out.nobody nofun, .inr ⟨?_, thread, ?_⟩⟩, offers⟩
      · show sys.waitFor.value - 1 = 0
        omega
      · exact Function.update_self ..
    · -- A thread that has the unit already would leave the value 0.
      exact absurd zero positive

/-- A test of `P` that finds no wake-up keeps the invariant: the thread is the only sleeper. -/
theorem Invariant.p_parked (inv : sys.Invariant stream) {thread : Thread}
    (entering : sys.stage thread = .entering) (holding : sys.lock.stage thread = .holding)
    (zero : sys.waitFor.value = 0) :
    ({ sys with waitFor := { sys.waitFor with queue := sys.waitFor.queue ++ [thread] } }.move
      thread .parked).Invariant stream := by
  have nobody := inv.nobody_inside holding (by rw [entering]; rfl)
  refine ⟨inv.locked, inv.sound, inv.placed_update holding,
    inv.inHand.update (by simp [entering]) nofun, ?_⟩
  rcases inv.device with ⟨unwoken, device⟩ | ⟨out, -⟩
  · -- Nobody slept, so that the thread is the only one to sleep.
    refine .inl ⟨⟨zero, update_absent unwoken.nobody nofun, .inr ⟨thread, ?_, ?_⟩⟩, device⟩
    · rcases unwoken.queue with ⟨empty, -⟩ | ⟨owner, -, parked⟩
      · show sys.waitFor.queue ++ [thread] = [thread]
        rw [empty, List.nil_append]
      · have outside := nobody owner
        rw [parked] at outside
        cases outside
    · exact Function.update_self ..
  · -- With a wake-up out, either the value is 1 or somebody has it.
    rcases out.unit with ⟨one, -⟩ | ⟨-, owner, woken⟩
    · omega
    · -- Whoever has the wake-up has the lock as well.
      have outside := nobody owner
      rw [woken] at outside
      cases outside

omit [DecidableEq Thread] in
/-- Whoever has been woken finds a character, or the end of the file. -/
theorem Invariant.offers (inv : sys.Invariant stream) {thread : Thread}
    (woken : sys.stage thread = .woken) : sys.consoleInput.Offers stream sys.taken := by
  rcases inv.device with ⟨unwoken, -⟩ | ⟨-, offers⟩
  · exact absurd woken (unwoken.nobody thread)
  · exact offers

/-- Getting the character keeps the invariant, if the keyboard polls on, or has ended. -/
theorem Invariant.getChar_goesOn (inv : sys.Invariant stream) {thread : Thread}
    (woken : sys.stage thread = .woken)
    (goesOn : sys.consoleInput.getChar.2.Polls stream (sys.taken ++ [sys.consoleInput.getChar.1]) ∨
      sys.consoleInput.getChar.2.Ended stream (sys.taken ++ [sys.consoleInput.getChar.1])) :
    (sys.getChar thread).Invariant stream := by
  have holding : sys.lock.stage thread = .holding := by
    have placed := inv.placed thread
    rwa [woken] at placed
  -- Nobody else is inside, so that nobody waits or has a character.
  have alone : ∀ {other}, (sys.stage other).inside = true → other = thread :=
    fun inside => inv.alone inside (by rw [holding]; rfl)
  refine ⟨inv.locked, inv.sound, inv.placed_update (.inl holding),
    inv.inHand.takes (fun other got there => ?_) _, ?_⟩
  · -- A character in hand would be the thread's, which has none yet.
    have same : other = thread := alone (by rw [there]; rfl)
    rw [same, woken] at there
    cases there
  · -- The thread has the wake-up, so it is out.
    rcases inv.device with ⟨unwoken, -⟩ | ⟨out, -⟩
    · exact absurd woken (unwoken.nobody thread)
    · rcases out.unit with ⟨-, nobody⟩ | ⟨zero, -⟩
      · exact absurd woken (nobody thread)
      · -- It is used up, and nobody waits for the next.
        refine .inl ⟨⟨zero, fun other => ?_, .inl ⟨out.queue, update_absent out.nobody nofun⟩⟩,
          goesOn⟩
        by_cases same : other = thread
        · simp [SynchConsoleSystem.getChar, same]
        · intro also
          rw [SynchConsoleSystem.getChar, move_stage_of_ne _ _ _ _ same] at also
          exact same (alone (by rw [show sys.stage other = .woken from also]; rfl))

/-- Getting the character keeps the invariant, if only the last byte of the stream may be an EOF. -/
theorem Invariant.getChar (inv : sys.Invariant stream) {thread : Thread}
    (last : ∀ c ∈ stream.dropLast, c.toInt ≠ eof) (woken : sys.stage thread = .woken) :
    (sys.getChar thread).Invariant stream :=
  inv.getChar_goesOn woken ((inv.offers woken).getChar last)

/-- With nobody asleep, the callback leaves the wake-up with the semaphore. -/
theorem callBack_nobody (sys : SynchConsoleSystem Thread) (empty : sys.waitFor.queue = []) :
    sys.callBack = { sys with waitFor := { value := sys.waitFor.value + 1, queue := [] } } := by
  have counted : sys.waitFor.v = ({ value := sys.waitFor.value + 1, queue := [] }, none) := by
    simp [Semaphore.v, empty]
  simp [SynchConsoleSystem.callBack, counted]

/-- The callback wakes the front of the queue, who tests the value again. -/
theorem callBack_wakes (sys : SynchConsoleSystem Thread) {owner : Thread} {rest : List Thread}
    (queue : sys.waitFor.queue = owner :: rest) :
    sys.callBack = { sys with
      waitFor := { value := sys.waitFor.value + 1, queue := rest } }.move owner .entering := by
  have counted : sys.waitFor.v = ({ value := sys.waitFor.value + 1, queue := rest }, some owner) := by
    simp [Semaphore.v, queue]
  simp [SynchConsoleSystem.callBack, counted]

/-- The callback wakes the sleeper, or leaves the wake-up for whoever tests the value next. -/
theorem Invariant.callBack (inv : sys.Invariant stream) (unwoken : Unwoken sys.waitFor sys.stage)
    {consoleInput : ConsoleInput} (offers : consoleInput.Offers stream sys.taken) :
    ({ sys with consoleInput }.callBack).Invariant stream := by
  have one : sys.waitFor.value + 1 = 1 := by rw [unwoken.value, Int.zero_add]
  rcases unwoken.queue with ⟨empty, nobody⟩ | ⟨owner, queue, parked⟩
  · -- Nobody sleeps, and the unit stays in the semaphore.
    rw [callBack_nobody { sys with consoleInput } empty]
    exact ⟨inv.locked, inv.sound, inv.placed, inv.inHand,
      .inr ⟨⟨rfl, nobody, .inl ⟨one, unwoken.nobody⟩⟩, offers⟩⟩
  · -- The owner sleeps, and is woken by the unit.
    rw [callBack_wakes { sys with consoleInput } queue]
    have holding : sys.lock.stage owner = .holding := by
      have placed := inv.placed owner
      rwa [parked] at placed
    have entering : sys.Placed owner .entering := by
      show sys.lock.stage owner ≠ .vacated
      simp [holding]
    refine ⟨inv.locked, inv.sound, inv.placed_update entering,
      inv.inHand.update (by simp [parked]) nofun,
      .inr ⟨⟨rfl, fun other => ?_, .inl ⟨one, update_absent unwoken.nobody nofun⟩⟩, offers⟩⟩
    -- Whoever is parked has the lock, so only the owner was.
    by_cases same : other = owner
    · simp [same]
    · rw [move_stage_of_ne _ _ _ _ same]
      intro also
      exact same (inv.alone (by rw [show sys.stage other = .parked from also]; rfl)
        (by rw [holding]; rfl))

/-- The interrupt keeps the invariant: it comes only while the keyboard polls. -/
theorem Invariant.interrupt (inv : sys.Invariant stream) (pending : sys.consoleInput.pending ≠ 0)
    (pollFile : Bool) : (sys.interrupt pollFile).Invariant stream := by
  -- The keyboard polls, or there is no interrupt to come.
  rcases inv.device with ⟨unwoken, polls | ended⟩ | ⟨-, offers⟩
  · obtain ⟨after, called, handled, polls, offers⟩ := polls.interrupt pollFile
    unfold SynchConsoleSystem.interrupt
    rw [handled]
    cases called with
    -- No character has come, and it polls on.
    | false =>
      exact ⟨inv.locked, inv.sound, inv.placed, inv.inHand, .inl ⟨unwoken, .inl (polls rfl)⟩⟩
    -- A character has come, which the callback announces.
    | true => exact inv.callBack unwoken (offers rfl)
  · exact absurd ended.pending pending
  · exact absurd offers.pending pending

/-- A call begins outside the lock. -/
theorem Invariant.call_step (inv : sys.Invariant stream) {thread : Thread}
    (idle : sys.stage thread = .idle) : (sys.move thread .entering).Invariant stream := by
  have placed := inv.placed thread
  rw [idle] at placed
  have entering : sys.Placed thread .entering := by
    show sys.lock.stage thread ≠ .vacated
    simp [show sys.lock.stage thread = .outside from placed]
  exact ⟨inv.locked, inv.sound, inv.placed_update entering,
    inv.inHand.update (by simp [idle]) nofun, inv.device_update (by rw [idle]; rfl) rfl⟩

/-- Every step keeps the invariant, if only the last byte of the stream may be an EOF. -/
theorem invariant_step {event : SynchConsoleEvent Thread}
    (last : ∀ c ∈ stream.dropLast, c.toInt ≠ eof) (inv : sys.Invariant stream)
    (stepped : sys.step event = some next) : next.Invariant stream := by
  rcases step_cases stepped with ⟨thread, -, idle, rfl⟩ | ⟨thread, lock, ch, -, moved, leaving, rfl⟩ |
    ⟨piece, lock, -, allowed, moved, stays, rfl⟩ | ⟨thread, -, entering, holding, positive, rfl⟩ |
    ⟨thread, -, entering, holding, zero, rfl⟩ | ⟨thread, -, woken, rfl⟩ |
    ⟨pollFile, -, pending, rfl⟩
  -- Each step has a lemma of its own.
  · exact inv.call_step idle
  · exact inv.returns moved leaving
  · exact inv.lock_step allowed moved stays
  · exact inv.p_woken entering holding positive
  · exact inv.p_parked entering holding zero
  · exact inv.getChar last woken
  · exact inv.interrupt pending pollFile

/-- Whatever the threads and the keyboard do, the invariant holds. -/
theorem invariant_replay (last : ∀ c ∈ stream.dropLast, c.toInt ≠ eof)
    {events : List (SynchConsoleEvent Thread)}
    (reached : replay step (new stream) events = some sys) : sys.Invariant stream :=
  replay_invariant (fun _ _ _ => invariant_step last) (invariant_new stream) reached

/-- What the console is to do with a stream, in any state that it gets to. -/
structure Delivers (stream : List Byte) (sys : SynchConsoleSystem Thread) : Prop where
  sound : sys.aborted = false
  -- The call after the one that returns the last byte returns the EOF.
  inOrder : sys.returned <+: stream ++ [eofChar]
  -- A wake-up is consumed when the character is taken for it.
  live : sys.consoleInput.readFile ≠ [] → 0 < sys.consoleInput.pending ∨
    (sys.consoleInput.incoming.toInt ≠ eof ∧ WakeUpOut sys.waitFor sys.stage)

omit [DecidableEq Thread] in
/-- The invariant says that every byte is delivered. -/
theorem Invariant.delivers (inv : sys.Invariant stream)
    (last : ∀ c ∈ stream.dropLast, c.toInt ≠ eof) : sys.Delivers stream := by
  -- What was taken is in the order of the stream, with one EOF at most at its end.
  have taken : sys.taken <+: stream ++ [eofChar] := by
    rcases inv.device with ⟨-, polls | ended⟩ | ⟨-, offers⟩
    · rw [polls.rest, List.append_assoc]
      exact List.prefix_append _ _
    · exact ended.all
    · exact offers.inOrder
  refine ⟨inv.sound, ?_, fun unread => ?_⟩
  · -- What is returned is what was taken, but for the character in hand.
    rcases inv.inHand with ⟨same, -⟩ | ⟨_, ch, -, same⟩
    · exact same ▸ taken
    · rw [same] at taken
      exact (List.prefix_append _ _).trans taken
  · rcases inv.device with ⟨-, polls | ended⟩ | ⟨out, offers⟩
    · -- The keyboard polls on for what is unread.
      exact .inl (by rw [polls.pending]; exact Nat.one_pos)
    · exact absurd ended.rest unread
    · -- The keyboard offers a character, and the wake-up is out.
      exact .inr ⟨fun ends => unread (offers.last last ends), out⟩

/-- The state between two calls, by what is left of the stream and what was read of it. -/
def resting (rest taken : List Byte) : SynchConsoleSystem Thread :=
  { new rest with
    consoleInput := { ConsoleInput.new rest with numConsoleCharsRead := taken.length }
    taken
    returned := taken }

/-- A call with the lock free, and the interrupt that it waits for. -/
def undisturbed (thread : Thread) : List (SynchConsoleEvent Thread) :=
  [.call thread, .lock (.acquire thread), .lock (.p thread), .lock (.hold thread),
    .interrupt true, .p thread, .getChar thread, .lock (.release thread), .lock (.v thread)]

/-- An undisturbed call takes a character that is no EOF, and the keyboard polls for the next. -/
theorem replay_undisturbed (thread : Thread) {c : Byte} (rest taken : List Byte)
    (data : c.toInt ≠ eof) :
    replay step (resting (c :: rest) taken) (undisturbed thread) =
      some (resting rest (taken ++ [c])) := by
  -- Each piece finds the thread where the one before it has left it.
  simp [replay, undisturbed, resting, step, new, move, callBack, interrupt, getChar, afterLock,
    data, ConsoleInput.new, ConsoleInput.interrupt, ConsoleInput.callBack, ConsoleInput.getChar,
    SynchConsoleStage.allows, LockEvent.thread, LockSystem.new, LockSystem.step, LockSystem.move,
    LockSystem.isHeldBy, Semaphore.new, Semaphore.test, Semaphore.v]

/-- One thread can read the stream up to any place before which there is no EOF. -/
theorem reaches_resting (thread : Thread) (rest : List Byte) {front : List Byte} :
    ∀ taken, (∀ c ∈ front, c.toInt ≠ eof) →
      ∃ events, replay step (resting (front ++ rest) taken : SynchConsoleSystem Thread) events =
        some (resting rest (taken ++ front)) := by
  -- By induction on the front: each byte of it is one undisturbed call.
  induction front with
  -- Nothing is left in front.
  | nil => exact fun taken _ => ⟨[], by rw [List.append_nil]; rfl⟩
  | cons c front ih =>
    intro taken data
    -- The rest of the front comes after this byte.
    obtain ⟨events, ran⟩ := ih (taken ++ [c]) fun other member =>
      data other (List.mem_cons_of_mem c member)
    refine ⟨undisturbed thread ++ events, ?_⟩
    rw [List.cons_append, replay_append (replay_undisturbed thread (front ++ rest) taken
      (data c List.mem_cons_self)), ran, List.append_assoc]
    rfl

/-- An EOF that is not the last byte stops the keyboard, although nothing is buffered then. -/
theorem Delivers.false_of_eof {c next : Byte} {rest taken : List Byte}
    (ends : c.toInt = eof) (delivers : Delivers stream
      ((resting (c :: next :: rest) taken : SynchConsoleSystem Thread).interrupt true)) : False := by
  rcases delivers.live (List.cons_ne_nil next rest) with scheduled | ⟨data, -⟩
  · exact Nat.lt_irrefl 0 scheduled
  · exact data ends

/-- Up to the first EOF a stream has data, and after it a byte unless it is the last one. -/
theorem split_at_eof {c : Byte} (member : c ∈ stream.dropLast) (ends : c.toInt = eof) :
    ∃ front next rest, stream = front ++ c :: next :: rest ∧ ∀ other ∈ front, other.toInt ≠ eof := by
  have some : stream ≠ [] := by
    rintro rfl
    cases member
  -- The first EOF is where the stream splits.
  obtain ⟨front, back, split, first⟩ := List.eq_append_cons_of_mem member
  have data : ∀ other ∈ front, other.toInt ≠ eof := fun other there also =>
    first (BitVec.eq_of_toInt_eq (ends.trans also.symm) ▸ there)
  have whole : stream = front ++ c :: (back ++ [stream.getLast some]) := by
    rw [← List.cons_append, ← List.append_assoc, ← split, List.dropLast_concat_getLast]
  -- After it there is the last byte, and maybe others before that.
  cases back with
  | nil => exact ⟨front, _, [], whole, data⟩
  | cons next back => exact ⟨front, next, _, whole, data⟩

end SynchConsoleSystem

open SynchConsoleSystem

/-- The console delivers a stream in every run exactly if no byte of it but the last reads as EOF. -/
theorem console_delivers_iff [Inhabited Thread] (stream : List Byte) :
    (∀ events (sys : SynchConsoleSystem Thread),
      replay step (new stream) events = some sys → sys.Delivers stream) ↔
    ∀ c ∈ stream.dropLast, c.toInt ≠ eof := by
  constructor
  · intro delivers c member ends
    -- One thread reads up to the first EOF, and the byte after that is never read.
    obtain ⟨front, next, rest, rfl, data⟩ := split_at_eof member ends
    obtain ⟨events, ran⟩ := reaches_resting (default : Thread) (c :: next :: rest) [] data
    have stops : replay step (new (front ++ c :: next :: rest)) (events ++ [.interrupt true]) =
        some ((resting (c :: next :: rest) ([] ++ front)).interrupt true) :=
      (replay_append ran [.interrupt true]).trans rfl
    exact (delivers _ _ stops).false_of_eof ends
  · -- In the other direction the invariant says it.
    intro last events sys reached
    exact (invariant_replay last reached).delivers last

/-- The second byte is never read, because the first one reads as EOF. -/
theorem console_stops :
    ∃ sys : SynchConsoleSystem (Fin 2),
      replay step (new [0xff, 0x41]) (undisturbed 0) = some sys ∧
      sys.returned = [0xff] ∧ sys.consoleInput.readFile = [0x41] ∧
      sys.consoleInput.pending = 0 ∧ ¬ sys.Delivers [0xff, 0x41] := by
  refine ⟨_, rfl, rfl, rfl, rfl, fun delivers => ?_⟩
  rcases delivers.live (List.cons_ne_nil _ _) with scheduled | ⟨data, -⟩
  · exact Nat.lt_irrefl 0 scheduled
  · exact data rfl

end

end Nachos
