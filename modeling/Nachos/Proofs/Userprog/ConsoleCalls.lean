import Nachos.Proofs.Threads.LockProgress
import Nachos.Proofs.Userprog.SynchConsole
import Nachos.Proofs.Userprog.SynchConsoleOutput
import Nachos.Threads.ConsoleTest

/-! What a single thread finds in its calls of the console, and that each call can return. -/

namespace Nachos

/-- The only thread there is never sleeps for a lock. -/
theorem LockSystem.Lively.awake_single {sys : LockSystem Unit} (lively : sys.Lively)
    (inv : sys.Invariant) : sys.stage () ≠ .asleep := by
  intro asleep
  have inside : sys.stage () ≠ .outside := by simp [asleep]
  obtain ⟨other, -, awake⟩ := lively.awake inv inside
  exact awake asleep

section Keyboard

namespace SynchConsoleSystem

variable {sys next : SynchConsoleSystem Unit} {event : SynchConsoleEvent Unit}
  {text front : List Byte} {ch : Byte}

/-- No EOF has been taken, and while no interrupt is to come, there is a character to be had. -/
structure Typing (text : List Byte) (sys : SynchConsoleSystem Unit) : Prop where
  inv : sys.Invariant text
  chars : ∀ c ∈ sys.taken, c.toInt ≠ eof
  awake : sys.consoleInput.pending = 0 → sys.waitFor.value ≠ 0 ∨ sys.stage () = .woken

/-- An EOF has been taken behind other characters, and the keyboard rests. -/
structure Closing (text front : List Byte) (ch : Byte) (sys : SynchConsoleSystem Unit) :
    Prop where
  sound : sys.aborted = false
  pending : sys.consoleInput.pending = 0
  locked : sys.lock.Invariant
  ends : ch.toInt = eof
  chars : ∀ c ∈ front, c.toInt ≠ eof
  taken : front ++ [ch] <+: text ++ [eofChar]
  call : (sys.stage () = .leaving ch ∧ sys.returned = front ∧
      (sys.lock.stage () = .holding ∨ sys.lock.stage () = .vacated)) ∨
    (sys.stage () = .idle ∧ sys.returned = front ++ [ch])

/-- Without an interrupt to come, a thread that has no wake-up finds one. -/
theorem Typing.value (typing : sys.Typing text) (none : sys.consoleInput.pending = 0)
    (without : sys.stage () ≠ .woken) : sys.waitFor.value ≠ 0 :=
  (typing.awake none).resolve_right without

/-- The interrupt takes no character, and comes again or leaves a wake-up. -/
theorem Invariant.interrupt_awake (inv : sys.Invariant text)
    (pending : sys.consoleInput.pending ≠ 0) (pollFile : Bool) :
    (sys.interrupt pollFile).taken = sys.taken ∧
      ((sys.interrupt pollFile).consoleInput.pending = 0 →
        (sys.interrupt pollFile).waitFor.value ≠ 0) := by
  -- The keyboard polls, or there is no interrupt to come.
  rcases inv.device with ⟨unwoken, polls | ended⟩ | ⟨-, offers⟩
  · obtain ⟨after, called, handled, goesOn, -⟩ := polls.interrupt pollFile
    unfold SynchConsoleSystem.interrupt
    rw [handled]
    cases called with
    -- Nothing has come, and the keyboard polls on.
    | false =>
      refine ⟨rfl, fun none => ?_⟩
      have one := (goesOn rfl).pending
      simp only at none
      omega
    -- A character has come: it wakes the sleeper, or leaves the unit for the next test.
    | true =>
      have value := unwoken.value
      rcases unwoken.queue with ⟨empty, -⟩ | ⟨owner, queue, -⟩
      · dsimp only
        rw [callBack_nobody { sys with consoleInput := after } empty]
        exact ⟨rfl, fun _ => by simp [value]⟩
      · dsimp only
        rw [callBack_wakes { sys with consoleInput := after } queue]
        exact ⟨rfl, fun _ => by simp [move, value]⟩
  · exact absurd ended.pending pending
  · exact absurd offers.pending pending

/-- The step that takes an EOF is the last one to take anything. -/
theorem Typing.closing (typing : sys.Typing text) (woken : sys.stage () = .woken)
    (ends : sys.consoleInput.incoming.toInt = eof) :
    (sys.getChar ()).Closing text sys.taken sys.consoleInput.incoming := by
  have offers := typing.inv.offers woken
  have holding : sys.lock.stage () = .holding := by
    have placed := typing.inv.placed ()
    rwa [woken] at placed
  refine ⟨typing.inv.sound, ?_, typing.inv.locked, ends, typing.chars, offers.taken_prefix,
    .inl ⟨move_stage_self _ _ _, ?_, .inl holding⟩⟩
  · -- With the EOF the keyboard stops.
    simp [SynchConsoleSystem.getChar, move, ConsoleInput.getChar, ends, offers.pending]
  · -- Whoever has been woken has no character in hand.
    rcases typing.inv.inHand with ⟨same, -⟩ | ⟨_, got, leaving, -⟩
    · exact same.symm
    · rw [woken] at leaving
      cases leaving

/-- Every step takes characters, or the EOF. -/
theorem Typing.step (typing : sys.Typing text) (stepped : sys.step event = some next) :
    next.Typing text ∨
      (sys.stage () = .woken ∧ ∃ front ch, next.Closing text front ch) := by
  rcases step_cases stepped with ⟨thread, -, idle, rfl⟩ |
    ⟨thread, lock, ch, -, moved, leaving, rfl⟩ | ⟨piece, lock, -, allowed, moved, stays, rfl⟩ |
    ⟨thread, -, entering, holding, positive, rfl⟩ | ⟨thread, -, entering, holding, zero, rfl⟩ |
    ⟨thread, -, woken, rfl⟩ | ⟨pollFile, -, pending, rfl⟩
  · -- A call begins, and the value is what it was.
    exact .inl ⟨typing.inv.call_step idle, typing.chars,
      fun none => .inl (typing.value none (by simp [idle]))⟩
  · -- A call returns, and the value is what it was.
    exact .inl ⟨typing.inv.returns moved leaving, typing.chars,
      fun none => .inl (typing.value none (by simp [leaving]))⟩
  · exact .inl ⟨typing.inv.lock_step allowed moved stays, typing.chars, typing.awake⟩
  · -- The thread has taken the unit, and is awake.
    exact .inl ⟨typing.inv.p_woken entering holding positive, typing.chars,
      fun _ => .inr (move_stage_self _ _ _)⟩
  · -- The value is 0, so an interrupt is to come.
    exact .inl ⟨typing.inv.p_parked entering holding zero, typing.chars,
      fun none => absurd zero (typing.value none (by simp [entering]))⟩
  · -- The character that is taken is the EOF, or is one more before it.
    by_cases ends : sys.consoleInput.incoming.toInt = eof
    · exact .inr ⟨woken, _, _, typing.closing woken ends⟩
    · refine .inl ⟨typing.inv.getChar_goesOn woken
        (.inl ((typing.inv.offers woken).getChar_polls ends)), fun c member => ?_, fun none => ?_⟩
      · rcases List.mem_append.mp member with before | last
        · exact typing.chars c before
        · rw [List.mem_singleton.mp last]
          exact ends
      · -- The next character has been scheduled.
        simp [SynchConsoleSystem.getChar, move, ConsoleInput.getChar, ends] at none
  · -- The interrupt takes nothing, and leaves the thread awake or another interrupt.
    obtain ⟨taken, awake⟩ := typing.inv.interrupt_awake pending pollFile
    refine .inl ⟨typing.inv.interrupt pending pollFile, ?_, fun none => .inl (awake none)⟩
    rw [taken]
    exact typing.chars

/-- A thread that does not wait for the keyboard takes no EOF. -/
theorem Typing.stays (typing : sys.Typing text) (without : sys.stage () ≠ .woken)
    (stepped : sys.step event = some next) : next.Typing text :=
  (typing.step stepped).resolve_right fun ⟨woken, _⟩ => without woken

/-- After the EOF, there is only the way out of the call. -/
theorem Closing.step (closing : sys.Closing text front ch)
    (noCall : ∀ thread, event ≠ .call thread) (stepped : sys.step event = some next) :
    next.Closing text front ch := by
  -- The one thread is leaving with the EOF, or has left.
  have nowhere : ∀ {stage}, sys.stage () = stage → stage = .leaving ch ∨ stage = .idle := by
    intro stage there
    rcases closing.call with ⟨leaving, -⟩ | ⟨idle, -⟩
    · exact .inl (there ▸ leaving)
    · exact .inr (there ▸ idle)
  rcases step_cases stepped with ⟨thread, begun, -, -⟩ |
    ⟨thread, lock, got, -, moved, leaving, rfl⟩ | ⟨piece, lock, -, allowed, moved, stays, rfl⟩ |
    ⟨thread, -, entering, -, -, -⟩ | ⟨thread, -, entering, -, -, -⟩ | ⟨thread, -, woken, -⟩ |
    ⟨pollFile, -, pending, -⟩
  · -- No call begins.
    exact absurd begun (noCall thread)
  · -- The call returns the EOF.
    refine ⟨closing.sound, closing.pending, LockSystem.invariant_step closing.locked moved,
      closing.ends, closing.chars, closing.taken, .inr ⟨move_stage_self _ _ _, ?_⟩⟩
    rcases closing.call with ⟨there, returned, -⟩ | ⟨idle, -⟩
    · rw [there] at leaving
      cases leaving
      exact congrArg (· ++ [ch]) returned
    · rw [idle] at leaving
      cases leaving
  · -- A piece of the lock leads on through Release.
    refine ⟨closing.sound, closing.pending, LockSystem.invariant_step closing.locked moved,
      closing.ends, closing.chars, closing.taken, ?_⟩
    rcases closing.call with ⟨leaving, returned, placed⟩ | ⟨idle, returned⟩
    · refine .inl ⟨leaving, returned, ?_⟩
      have moves := closing.locked.step_own moved
      cases piece with
      | acquire thread =>
        rw [show sys.stage thread = .leaving ch from leaving] at allowed
        cases allowed
      -- Outside Acquire there is only the way on.
      | p thread | hold thread => rcases placed with there | there <;> simp_all [LockEvent.Moves]
      | release thread => exact .inr moves.2
      | v thread => exact absurd leaving (stays thread ch rfl)
    · exact .inr ⟨idle, returned⟩
  · -- The thread is in no stage from which it could test, or take a character.
    rcases nowhere entering with other | other <;> cases other
  · rcases nowhere entering with other | other <;> cases other
  · rcases nowhere woken with other | other <;> cases other
  · -- The keyboard schedules no interrupt any more.
    exact absurd closing.pending pending

/-- A step returns a character, or it returns nothing and keeps the thread in its call or out. -/
theorem returns_cases (noCall : ∀ thread, event ≠ .call thread)
    (calm : sys.consoleInput.pending ≠ 0 → sys.stage () = .idle → sys.waitFor.queue = [])
    (stepped : sys.step event = some next) :
    (∃ ch, sys.returns event = some ch ∧ sys.stage () = .leaving ch ∧ next.stage () = .idle ∧
      next.returned = sys.returned ++ [ch]) ∨
    (sys.returns event = none ∧ next.returned = sys.returned ∧
      (next.stage () = .idle ↔ sys.stage () = .idle)) := by
  -- By what a step can do.
  rcases step_cases stepped with ⟨thread, begun, -, -⟩ |
    ⟨thread, lock, ch, rfl, moved, leaving, rfl⟩ |
    ⟨piece, lock, rfl, allowed, moved, stays, rfl⟩ | ⟨thread, rfl, entering, -, -, rfl⟩ |
    ⟨thread, rfl, entering, -, -, rfl⟩ | ⟨thread, rfl, woken, rfl⟩ | ⟨pollFile, rfl, pending, rfl⟩
  · -- No call begins.
    exact absurd begun (noCall thread)
  · cases thread
    exact .inl ⟨ch, by simp [returns, leaving], leaving, move_stage_self _ _ _, rfl⟩
  · -- Only the last piece of Release returns a character, and that is the step before.
    refine .inr ⟨?_, rfl, Iff.rfl⟩
    cases piece with
    | v thread =>
      cases thread
      cases stage : sys.stage () with
      | leaving ch => exact absurd stage (stays () ch rfl)
      | idle | entering | parked | woken => simp [returns, stage]
    | acquire thread | p thread | hold thread | release thread => rfl
  · -- The other steps return nothing, and the thread is in its call before and after.
    exact .inr ⟨rfl, rfl, by simp [move, entering]⟩
  · exact .inr ⟨rfl, rfl, by simp [move, entering]⟩
  · exact .inr ⟨rfl, rfl, by simp [SynchConsoleSystem.getChar, move, woken]⟩
  · -- The interrupt returns nothing, and may wake the thread within its call.
    refine .inr ⟨rfl, ?_⟩
    unfold SynchConsoleSystem.interrupt
    split
    · exact ⟨rfl, Iff.rfl⟩
    · rename_i consoleInput _
      cases queue : sys.waitFor.queue with
      | nil =>
        rw [callBack_nobody { sys with consoleInput } queue]
        exact ⟨rfl, Iff.rfl⟩
      | cons owner rest =>
        -- Whoever is woken has been asleep in the call.
        rw [callBack_wakes { sys with consoleInput } queue]
        refine ⟨rfl, ?_⟩
        have inside : sys.stage () ≠ .idle := fun idle => by simp [calm pending idle] at queue
        simp [move, inside]
    · exact ⟨rfl, Iff.rfl⟩

/-- Nobody sleeps at the keyboard while the only thread is elsewhere. -/
theorem Typing.calm (typing : sys.Typing text) (idle : sys.stage () = .idle) :
    sys.waitFor.queue = [] := by
  rcases typing.inv.device with ⟨unwoken, -⟩ | ⟨out, -⟩
  · rcases unwoken.queue with ⟨empty, -⟩ | ⟨owner, -, parked⟩
    · exact empty
    · rw [idle] at parked
      cases parked
  · exact out.queue

/-- Nobody can be woken once the keyboard rests. -/
theorem Closing.calm (closing : sys.Closing text front ch)
    (pending : sys.consoleInput.pending ≠ 0) (_ : sys.stage () = .idle) :
    sys.waitFor.queue = [] :=
  absurd closing.pending pending

/-- The lock goes on being lively. -/
theorem lively_step (lively : sys.lock.Lively) (locked : sys.lock.Invariant)
    (stepped : sys.step event = some next) : next.lock.Lively := by
  rcases step_cases stepped with ⟨thread, -, -, rfl⟩ | ⟨thread, lock, ch, -, moved, -, rfl⟩ |
    ⟨piece, lock, -, -, moved, -, rfl⟩ | ⟨thread, -, -, -, -, rfl⟩ | ⟨thread, -, -, -, -, rfl⟩ |
    ⟨thread, -, -, rfl⟩ | ⟨pollFile, -, -, rfl⟩
  · -- Only the pieces of the lock change it.
    exact lively
  · exact lively.step locked moved
  · exact lively.step locked moved
  · exact lively
  · exact lively
  · exact lively
  · -- The interrupt wakes a thread through the semaphore, not through the lock.
    have same : (sys.interrupt pollFile).lock = sys.lock := by
      unfold SynchConsoleSystem.interrupt callBack
      split
      · rfl
      · split <;> rfl
      · rfl
    rw [same]
    exact lively

/-- At most how many steps there are, without more interrupts than needed, to the return. -/
def ahead (sys : SynchConsoleSystem Unit) : Nat :=
  match sys.stage () with
  | .idle => 0
  | .entering =>
    match sys.lock.stage () with
    | .outside => 10
    | .acquiring | .asleep => 9
    | .granted => 8
    -- Without a wake-up, the thread goes to sleep and tests again.
    | .holding | .vacated => if sys.waitFor.value = 0 then 7 else 5
  | .parked => 6
  | .woken => 4
  | .leaving _ => if sys.lock.stage () = .holding then 3 else 2

theorem ahead_le (sys : SynchConsoleSystem Unit) : sys.ahead ≤ 10 := by
  -- By the stage of the thread, and by its place in the lock.
  unfold ahead
  split
  · omega
  · split
    · omega
    · omega
    · omega
    · omega
    · split <;> omega
    · split <;> omega
  · omega
  · omega
  · split <;> omega

/-- A piece of the lock goes on where both the call and the lock let it. -/
theorem lock_goesOn (locked : sys.lock.Invariant) (piece : LockEvent Unit)
    (allowed : (sys.stage ()).allows piece = true) (there : sys.lock.stage () = piece.before) :
    ∃ lock, sys.lock.step piece = some lock ∧
      sys.step (.lock piece) =
        some (({ sys with lock } : SynchConsoleSystem Unit).afterLock piece) ∧
      piece.Moves (sys.lock.stage ()) (lock.stage ()) := by
  obtain ⟨lock, went⟩ := Option.isSome_iff_exists.mp (LockSystem.step_isSome piece there)
  exact ⟨lock, went, by simp [step, allowed, went], locked.step_own went⟩

/-- The way out of the call leads nearer to the return. -/
theorem nears_leaving (locked : sys.lock.Invariant) (leaving : sys.stage () = .leaving ch)
    (placed : sys.lock.stage () = .holding ∨ sys.lock.stage () = .vacated) :
    ∃ event next, (∀ thread, event ≠ .call thread) ∧ sys.step event = some next ∧
      next.ahead < sys.ahead := by
  -- The lock is still to be released, or has been vacated.
  rcases placed with holding | vacated
  · obtain ⟨lock, -, stepped, -, after⟩ :=
      lock_goesOn locked (.release ()) (by simp [leaving, SynchConsoleStage.allows]) holding
    exact ⟨.lock (.release ()), _, by simp, stepped, by
      simp [ahead, afterLock, leaving, holding, after]⟩
  · obtain ⟨lock, -, stepped, -⟩ := lock_goesOn locked (.v ()) rfl vacated
    exact ⟨.lock (.v ()), _, by simp, stepped, by
      simp [ahead, afterLock, leaving, vacated, LockEvent.thread, move]⟩

/-- While the keyboard polls, the interrupt wakes a thread that sleeps, if something is there. -/
theorem Unwoken.interrupt_wakes (unwoken : Unwoken sys.waitFor sys.stage)
    (polls : sys.consoleInput.Polls text sys.taken) (parked : sys.stage () = .parked) :
    (sys.interrupt true).stage () = .entering ∧ (sys.interrupt true).lock = sys.lock ∧
      (sys.interrupt true).waitFor.value = 1 := by
  -- The one thread is the one that sleeps.
  have queue : sys.waitFor.queue = [()] := by
    rcases unwoken.queue with ⟨-, nobody⟩ | ⟨owner, queue, -⟩
    · exact absurd parked (nobody ())
    · exact queue
  -- Whatever byte is there, the callback is called.
  have called : ∃ consoleInput,
      sys.interrupt true = ({ sys with consoleInput } : SynchConsoleSystem Unit).callBack := by
    unfold SynchConsoleSystem.interrupt ConsoleInput.interrupt ConsoleInput.callBack
    rw [if_pos polls.incoming, if_pos rfl]
    cases sys.consoleInput.readFile with
    | nil => exact ⟨_, rfl⟩
    | cons c rest => exact ⟨_, rfl⟩
  obtain ⟨consoleInput, called⟩ := called
  rw [called, callBack_wakes { sys with consoleInput } queue]
  exact ⟨move_stage_self _ _ _, rfl, by simp [move, unwoken.value]⟩

/-- A call of `GetChar` comes nearer to its return. -/
theorem Typing.nears (typing : sys.Typing text) (lively : sys.lock.Lively)
    (inside : sys.stage () ≠ .idle) :
    ∃ event next, (∀ thread, event ≠ .call thread) ∧ sys.step event = some next ∧
      next.ahead < sys.ahead := by
  have locked := typing.inv.locked
  have placed := typing.inv.placed ()
  -- By the stage of the call, and inside Acquire by the place in the lock.
  cases stage : sys.stage () with
  | idle => exact absurd stage inside
  | entering =>
    rw [stage] at placed
    cases lock : sys.lock.stage () with
    | outside =>
      obtain ⟨_, -, stepped, -, after⟩ :=
        lock_goesOn locked (.acquire ()) (by simp [stage, SynchConsoleStage.allows]) lock
      exact ⟨.lock (.acquire ()), _, by simp, stepped, by
        simp [ahead, afterLock, stage, lock, after]⟩
    | acquiring =>
      obtain ⟨_, went, stepped, -, granted | asleep⟩ := lock_goesOn locked (.p ()) rfl lock
      · exact ⟨.lock (.p ()), _, by simp, stepped, by simp [ahead, afterLock, stage, lock, granted]⟩
      · -- Nobody else can have the lock.
        exact absurd asleep
          ((lively.step locked went).awake_single (LockSystem.invariant_step locked went))
    -- The only thread does not sleep for the lock.
    | asleep => exact absurd lock (lively.awake_single locked)
    | granted =>
      obtain ⟨_, -, stepped, -, after⟩ := lock_goesOn locked (.hold ()) rfl lock
      refine ⟨.lock (.hold ()), _, by simp, stepped, ?_⟩
      by_cases zero : sys.waitFor.value = 0 <;> simp [ahead, afterLock, stage, lock, after, zero]
    | holding =>
      -- The test takes the wake-up, or puts the thread to sleep.
      by_cases zero : sys.waitFor.value = 0
      · refine ⟨.p (), _, by simp, by
          simp only [SynchConsoleSystem.step, stage, if_pos lock, Semaphore.test, if_pos zero]
          rfl, ?_⟩
        simp [ahead, stage, lock, zero, move]
      · refine ⟨.p (), _, by simp, by
          simp only [SynchConsoleSystem.step, stage, if_pos lock, Semaphore.test, if_neg zero]
          rfl, ?_⟩
        simp [ahead, stage, lock, zero, move]
    | vacated => exact absurd lock placed
  | parked =>
    rw [stage] at placed
    have holding : sys.lock.stage () = .holding := placed
    -- Without an interrupt to come, the thread would have found the wake-up.
    have pending : sys.consoleInput.pending ≠ 0 := by
      intro none
      have value := typing.value none (by simp [stage])
      rcases typing.inv.device with ⟨unwoken, -⟩ | ⟨out, -⟩
      · exact value unwoken.value
      · exact out.nobody () stage
    -- The keyboard polls, since an interrupt is to come.
    rcases typing.inv.device with ⟨unwoken, polls | ended⟩ | ⟨-, offers⟩
    · obtain ⟨entering, lock, value⟩ := unwoken.interrupt_wakes polls stage
      refine ⟨.interrupt true, _, by simp, if_neg pending, ?_⟩
      simp [ahead, stage, entering, lock, holding, value]
    · exact absurd ended.pending pending
    · exact absurd offers.pending pending
  | woken =>
    rw [stage] at placed
    have holding : sys.lock.stage () = .holding := placed
    refine ⟨.getChar (), _, by simp, by simp only [SynchConsoleSystem.step, stage]; rfl, ?_⟩
    simp [ahead, stage, SynchConsoleSystem.getChar, move, holding]
  -- The way out of the lock is left.
  | leaving ch =>
    rw [stage] at placed
    exact nears_leaving locked stage placed

end SynchConsoleSystem

end Keyboard

section Display

/-- The character that a call has not given to the display yet. -/
def SynchOutputStage.left : SynchOutputStage → List Byte
  | .entering ch => [ch]
  | .idle | .waiting | .parked | .leaving => []

namespace SynchOutputSystem

variable {sys next : SynchOutputSystem Unit} {event : SynchOutputEvent Unit}

/-- What is on the display, or about to be. -/
def content (sys : SynchOutputSystem Unit) : List Byte :=
  sys.consoleOutput.writeFile ++ (sys.stage ()).left

/-- A step in a call changes nothing of what is to be on the display, and may return. -/
theorem returns_cases (inv : sys.Invariant) (noCall : ∀ thread ch, event ≠ .call thread ch)
    (stepped : sys.step event = some next) :
    next.content = sys.content ∧
    ((sys.returns event = true ∧ sys.stage () = .leaving ∧ next.stage () = .idle) ∨
      (sys.returns event = false ∧ (next.stage () = .idle ↔ sys.stage () = .idle))) := by
  rcases step_cases stepped with ⟨thread, ch, begun, -, -⟩ | ⟨piece, lock, rfl, allowed, -, rfl⟩ |
    ⟨thread, ch, rfl, entering, holding, rfl⟩ | ⟨thread, rfl, waiting, -, rfl⟩ |
    ⟨thread, rfl, waiting, -, rfl⟩ | ⟨rfl, pending, rfl⟩
  · exact absurd begun (noCall thread ch)
  · cases piece with
    -- Only the V at the end of Release returns.
    | v thread =>
      cases thread
      cases stage : sys.stage () <;>
        simp [content, returns, stage, LockEvent.thread, SynchOutputStage.after,
          SynchOutputStage.left]
    | acquire thread | p thread | hold thread | release thread =>
      cases thread
      simp [content, returns, LockEvent.thread, SynchOutputStage.after]
  · -- The character appears.
    rw [inv.putChar_eq entering holding]
    refine ⟨?_, .inr ⟨rfl, ?_⟩⟩
    · simp [content, entering, SynchOutputStage.left]
    · simp [entering]
  · -- A test of P writes nothing.
    exact ⟨by simp [content, waiting, SynchOutputStage.left],
      .inr ⟨rfl, by simp [waiting]⟩⟩
  · exact ⟨by simp [content, waiting, SynchOutputStage.left],
      .inr ⟨rfl, by simp [waiting]⟩⟩
  · -- By what the display is doing, which is writing.
    rcases inv.device with resting | ⟨owner, writing | written⟩
    · exact absurd resting.pending pending
    · rcases writing.owner with ⟨waiting, zero⟩ | ⟨parked, zero⟩
      · simp only [SynchOutputSystem.interrupt, callBack, zero, Semaphore.v]
        -- The thread is awake, and goes on waiting.
        exact ⟨rfl, .inr ⟨rfl, trivial⟩⟩
      · simp only [SynchOutputSystem.interrupt, callBack, zero, Semaphore.v]
        -- The thread wakes up within its call.
        refine ⟨?_, .inr ⟨rfl, ?_⟩⟩
        · simp [content, parked, SynchOutputStage.left, ConsoleOutput.interrupt]
        · simp [parked]
    · exact absurd written.pending pending

/-- The lock goes on being lively. -/
theorem lively_step (lively : sys.lock.Lively) (inv : sys.Invariant)
    (stepped : sys.step event = some next) : next.lock.Lively := by
  -- One case for each thing that a step can do.
  rcases step_cases stepped with ⟨thread, ch, -, -, rfl⟩ | ⟨piece, lock, -, -, moved, rfl⟩ |
    ⟨thread, ch, -, entering, holding, rfl⟩ | ⟨thread, -, -, -, rfl⟩ | ⟨thread, -, -, -, rfl⟩ |
    ⟨-, -, rfl⟩
  · exact lively
  · exact lively.step inv.locked moved
  · rw [inv.putChar_eq entering holding]
    exact lively
  · exact lively
  · exact lively
  · -- The interrupt wakes a thread through the semaphore, not through the lock.
    have same : sys.interrupt.lock = sys.lock := by
      unfold SynchOutputSystem.interrupt callBack
      split <;> rfl
    rw [same]
    exact lively

/-- At most how many steps there are to the return. -/
def ahead (sys : SynchOutputSystem Unit) : Nat :=
  match sys.stage () with
  | .idle => 0
  | .entering _ =>
    match sys.lock.stage () with
    | .outside => 9
    | .acquiring | .asleep => 8
    | .granted => 7
    | .holding | .vacated => 6
  | .waiting => if sys.waitFor.value = 0 then 5 else 3
  | .parked => 4
  | .leaving => if sys.lock.stage () = .holding then 2 else 1

theorem ahead_le (sys : SynchOutputSystem Unit) : sys.ahead ≤ 9 := by
  unfold ahead
  split
  · omega
  · split <;> omega
  · split <;> omega
  · omega
  · split <;> omega

/-- A piece of the lock goes on where both the call and the lock let it. -/
theorem lock_goesOn (locked : sys.lock.Invariant) (piece : LockEvent Unit)
    (allowed : (sys.stage ()).allows piece = true) (there : sys.lock.stage () = piece.before) :
    ∃ lock, sys.lock.step piece = some lock ∧
      sys.step (.lock piece) = some (({ sys with lock } : SynchOutputSystem Unit).move ()
        ((sys.stage ()).after piece)) ∧
      piece.Moves (sys.lock.stage ()) (lock.stage ()) := by
  obtain ⟨lock, went⟩ := Option.isSome_iff_exists.mp (LockSystem.step_isSome piece there)
  exact ⟨lock, went, by simp [step, allowed, went], locked.step_own went⟩

/-- The interrupt wakes a thread that sleeps for it. -/
theorem Invariant.interrupt_wakes (inv : sys.Invariant) (parked : sys.stage () = .parked) :
    sys.interrupt.stage () = .waiting ∧ sys.interrupt.waitFor.value = 1 := by
  -- By what the display is doing: it is writing for the sleeper.
  rcases inv.device with resting | ⟨owner, writing | written⟩
  · have nobody := resting.nobody ()
    rw [parked] at nobody
    cases nobody
  · rcases writing.owner with ⟨waiting, -⟩ | ⟨-, zero⟩
    · rw [parked] at waiting
      cases waiting
    · -- The V of the callback wakes it, and leaves the unit.
      simp [SynchOutputSystem.interrupt, callBack, zero, Semaphore.v, move]
  · have waiting := written.owner
    rw [parked] at waiting
    cases waiting

/-- A call of `PutChar` comes nearer to its return. -/
theorem Invariant.nears (inv : sys.Invariant) (lively : sys.lock.Lively)
    (inside : sys.stage () ≠ .idle) :
    ∃ event next, (∀ thread ch, event ≠ .call thread ch) ∧ sys.step event = some next ∧
      next.ahead < sys.ahead := by
  -- Where the thread is in the lock, the invariant says.
  have locked := inv.locked
  have placed := inv.placed ()
  -- By the stage of the call, and inside Acquire and Release by the place in the lock.
  cases stage : sys.stage () with
  -- A call that is idle is no call.
  | idle => exact absurd stage inside
  | entering ch =>
    rw [stage] at placed
    cases lock : sys.lock.stage () with
    -- It has not asked for the lock yet.
    | outside =>
      obtain ⟨_, -, stepped, -, after⟩ :=
        lock_goesOn locked (.acquire ()) (by simp [stage, SynchOutputStage.allows]) lock
      exact ⟨.lock (.acquire ()), _, by simp, stepped, by
        simp [ahead, move, SynchOutputStage.after, stage, lock, after]⟩
    -- It takes the lock, or would have to sleep.
    | acquiring =>
      obtain ⟨_, went, stepped, -, granted | asleep⟩ := lock_goesOn locked (.p ()) rfl lock
      · exact ⟨.lock (.p ()), _, by simp, stepped, by
          simp [ahead, move, SynchOutputStage.after, stage, lock, granted]⟩
      · exact absurd asleep
          ((lively.step locked went).awake_single (LockSystem.invariant_step locked went))
    -- The only thread does not sleep for the lock.
    | asleep => exact absurd lock (lively.awake_single locked)
    -- It has been given the lock.
    | granted =>
      obtain ⟨_, -, stepped, -, after⟩ := lock_goesOn locked (.hold ()) rfl lock
      exact ⟨.lock (.hold ()), _, by simp, stepped, by
        simp [ahead, move, SynchOutputStage.after, stage, lock, after]⟩
    -- It has the lock, and puts its character.
    | holding =>
      refine ⟨.putChar (), _, by simp, by simp only [step, stage, if_pos lock]; rfl, ?_⟩
      rw [inv.putChar_eq stage lock]
      simp only [ahead, move_stage_self, stage, lock]
      split <;> omega
    -- It has not given the lock back.
    | vacated => exact absurd lock placed
  | waiting =>
    rw [stage] at placed
    have holding : sys.lock.stage () = .holding := placed
    -- The test takes the unit, or puts the thread to sleep, which the interrupt ends.
    by_cases zero : sys.waitFor.value = 0
    · refine ⟨.p (), _, by simp, by simp only [step, stage, Semaphore.test, if_pos zero]; rfl, ?_⟩
      simp [ahead, stage, zero, move]
    · refine ⟨.p (), _, by simp, by simp only [step, stage, Semaphore.test, if_neg zero]; rfl, ?_⟩
      simp [ahead, stage, zero, move, holding]
  -- The interrupt that wakes it is scheduled.
  | parked =>
    obtain ⟨waiting, value⟩ := inv.interrupt_wakes stage
    -- The character is still on its way.
    have pending : sys.consoleOutput.pending ≠ 0 := by simp [inv.pending_of_parked stage]
    refine ⟨.interrupt, _, by simp, if_neg pending, ?_⟩
    simp [ahead, stage, waiting, value]
  | leaving =>
    rw [stage] at placed
    -- The lock is still to be released, or has been vacated.
    rcases placed with holding | vacated
    · obtain ⟨_, -, stepped, -, after⟩ :=
        lock_goesOn locked (.release ()) (by simp [stage, SynchOutputStage.allows]) holding
      exact ⟨.lock (.release ()), _, by simp, stepped, by
        simp [ahead, move, SynchOutputStage.after, stage, holding, after]⟩
    · -- The lock is free for the next one.
      obtain ⟨_, -, stepped, -⟩ := lock_goesOn locked (.v ()) rfl vacated
      exact ⟨.lock (.v ()), _, by simp, stepped, by
        simp [ahead, move, SynchOutputStage.after, stage, vacated]⟩

end SynchOutputSystem

end Display

end Nachos
