import Nachos.Proofs.Threads.Scheduler
import Nachos.Threads.IntLevel

/-! Every assertion on the interrupt level holds, and every call returns with the level it found. -/

namespace Nachos

/-- The calls come out right when the last of them is returned to at this level. -/
def Settled : IntStatus → List Activation → Prop
  | _, [] => True
  | _, .restores oldLevel :: rest => Settled oldLevel rest
  | level, .ticks :: rest => Settled level rest
  | level, .called before :: rest => level = before ∧ Settled level rest

namespace LevelSystem

variable {sys next : LevelSystem}

/-- The level at which a thread that is off the processor gets it back, and goes on. -/
def levelBack (sys : LevelSystem) (thread : ThreadNumber) : IntStatus :=
  match sys.threads.continuation thread with
  -- Begin enables interrupts before the thread comes to its code.
  | .begins => .intOn
  | .yields | .tests _ => .intOff

/-- What holds of the kernel, but for where the current thread is in its code. -/
structure Sound (sys : LevelSystem) : Prop where
  threads : sys.threads.Invariant
  failed : sys.failed = false
  outside : sys.inHandler = false
  off : sys.threads.phase ≠ .executing → sys.level = .intOff
  out : ∀ thread, thread ≠ sys.threads.currentThread ∨ sys.threads.phase ≠ .executing →
    Settled (sys.levelBack thread) (sys.calls thread)
  unborn : ∀ thread, sys.threads.forked thread = false → sys.calls thread = []

/-- The current thread is in its own code, or in calls that will come out right. -/
def Placed (sys : LevelSystem) : Prop :=
  match sys.control with
  | .own => sys.currentCalls = []
  | .returns => Settled sys.level sys.currentCalls
  | .ticks => Settled .intOn sys.currentCalls

/-- What every step of the kernel keeps. -/
structure Invariant (sys : LevelSystem) : Prop where
  sound : sys.Sound
  placed : sys.threads.phase = .executing → sys.Placed

/-- An assertion that interrupts are off holds when they are. -/
theorem assertOff_eq (off : sys.level = .intOff) : sys.assertOff = sys := if_pos off

/-- The threads may change as long as they go on where they did. -/
theorem Sound.rethread (sound : sys.Sound) {threads : ThreadSystem} (inv : threads.Invariant)
    (continuation : threads.continuation = sys.threads.continuation)
    (forked : threads.forked = sys.threads.forked)
    (current : threads.currentThread = sys.threads.currentThread)
    -- Only the levels at which threads come back depend on where they are.
    (phase : threads.phase = sys.threads.phase) : Sound { sys with threads } where
  threads := inv
  failed := sound.failed
  outside := sound.outside
  off := by
    dsimp only
    rw [phase]
    exact sound.off
  out := by
    dsimp only [levelBack]
    rw [continuation, current, phase]
    exact sound.out
  unborn := by
    dsimp only
    rw [forked]
    exact sound.unborn

/-- The calls of the current thread may change while it executes. -/
theorem Sound.setCalls (sound : sys.Sound) (executing : sys.threads.phase = .executing)
    (calls : List Activation) : (sys.setCalls calls).Sound where
  threads := sound.threads
  failed := sound.failed
  outside := sound.outside
  off notExecuting := absurd executing notExecuting
  out thread out := by
    -- Who is out is not the current thread.
    have different : thread ≠ sys.threads.currentThread := out.resolve_right fun not => not executing
    have before := sound.out thread (.inl different)
    unfold LevelSystem.setCalls
    -- The calls of another thread are untouched.
    dsimp only
    rw [Function.update_of_ne different]
    exact before
  unborn thread unforked := by
    -- The thread that executes was forked, so it is not one of those not yet born.
    have different : thread ≠ sys.threads.currentThread := by
      intro same
      have forked := sound.threads.current_forked (by simp [executing])
      rw [← same] at forked
      rw [show sys.threads.forked thread = false from unforked] at forked
      cases forked
    have before := sound.unborn thread unforked
    unfold LevelSystem.setCalls
    dsimp only
    rw [Function.update_of_ne different]
    exact before

/-- The level may change while the current thread executes. -/
theorem Sound.relevel (sound : sys.Sound) (executing : sys.threads.phase = .executing)
    (level : IntStatus) (control : Control) : Sound { sys with level, control } where
  threads := sound.threads
  failed := sound.failed
  outside := sound.outside
  off notExecuting := absurd executing notExecuting
  out := sound.out
  unborn := sound.unborn

@[simp] theorem currentCalls_setCalls (sys : LevelSystem) (calls : List Activation) :
    (sys.setCalls calls).currentCalls = calls := by
  unfold setCalls currentCalls
  exact Function.update_self _ _ _

/-- `SetLevel` in the code of a thread leaves the calls right that are right at the new level. -/
theorem Sound.setLevel (sound : sys.Sound) (executing : sys.threads.phase = .executing)
    {now : IntStatus} (settled : Settled now sys.currentCalls) : (sys.setLevel now).Invariant := by
  unfold LevelSystem.setLevel
  -- No handler is running, so `SetLevel` may be called.
  rw [if_neg (by simp [sound.outside])]
  -- The level is right for the thread, and for where it is going.
  refine ⟨sound.relevel executing now _, fun _ => ?_⟩
  unfold Placed
  dsimp only
  by_cases enabled : now = .intOn ∧ sys.level = .intOff
  · -- Interrupts have been enabled, so time advances before the return.
    rw [if_pos enabled]
    rw [enabled.1] at settled
    exact settled
  · rw [if_neg enabled]
    exact settled

/-- At the start of a call interrupts are off, and the call comes out right at any level. -/
theorem Sound.enter (sound : sys.Sound) (executing : sys.threads.phase = .executing)
    (settled : Settled sys.level sys.currentCalls) :
    sys.enter.Sound ∧ sys.enter.level = .intOff ∧ sys.enter.threads = sys.threads ∧
      ∀ level, Settled level sys.enter.currentCalls := by
  -- A call remembers the level that it found, for itself and for its caller.
  have pushed := sound.setCalls executing
    (.restores sys.level :: .called sys.level :: sys.currentCalls)
  refine ⟨pushed.relevel executing .intOff _, rfl, rfl, fun level => ?_⟩
  have calls : sys.enter.currentCalls =
      .restores sys.level :: .called sys.level :: sys.currentCalls :=
    currentCalls_setCalls sys (.restores sys.level :: .called sys.level :: sys.currentCalls)
  rw [calls]
  exact ⟨rfl, settled⟩

/-- A call that is about to return, with its calls right, is as it should be. -/
theorem Sound.returns (sound : sys.Sound) (settled : Settled sys.level sys.currentCalls) :
    Invariant { sys with control := .returns } where
  sound := ⟨sound.threads, sound.failed, sound.outside, sound.off, sound.out, sound.unborn⟩
  placed _ := settled

/-- `Yield` comes out right, whether or not it gives up the processor. -/
theorem Sound.yield (sound : sys.Sound) (executing : sys.threads.phase = .executing)
    (settled : Settled sys.level sys.currentCalls) : sys.yield.Invariant := by
  -- Inside the call interrupts are off, as the assertion wants it.
  obtain ⟨entered, off, threads, right⟩ := sound.enter executing settled
  unfold LevelSystem.yield
  rw [assertOff_eq off]
  dsimp only
  rw [threads]
  -- Nobody is ready, and the call returns.
  cases readyList : sys.threads.readyList with
  | nil => exact entered.returns (right _)
  -- The caller changes places with the front of the list.
  | cons nextThread rest =>
    dsimp only
    rw [assertOff_eq (assertOff_eq off ▸ off), assertOff_eq off]
    have result := sound.threads.yield_cons executing readyList
    -- The caller is out now, with interrupts off, and so is everybody else.
    have phase : sys.threads.yield.phase = .resuming := by rw [result]
    refine ⟨⟨(sound.threads.yield executing).inv, entered.failed, entered.outside, fun _ => off,
      ?_, ?_⟩, ?_⟩
    · intro thread _
      by_cases old : thread = sys.threads.currentThread
      · -- The caller is switched out in the middle of this call.
        have calls := right .intOff
        rw [old]
        unfold currentCalls at calls
        rw [threads] at calls
        have back : levelBack { sys.enter with threads := sys.threads.yield }
            sys.threads.currentThread = .intOff := by
          simp only [levelBack, result, Function.update_self]
        rw [back]
        exact calls
      · -- The others come back where they would have come back before.
        have before := entered.out thread (.inl (threads ▸ old))
        have back : levelBack { sys.enter with threads := sys.threads.yield } thread =
            sys.enter.levelBack thread := by
          simp only [levelBack, result, threads, Function.update_of_ne old]
        rw [back]
        exact before
    · -- No thread was born in this step.
      intro thread unforked
      refine entered.unborn thread ?_
      rw [threads]
      rw [show sys.threads.yield.forked = sys.threads.forked by rw [result]] at unforked
      exact unforked
    · -- The processor is on its way to another thread.
      intro running
      rw [show sys.threads.yield.phase = .executing from running] at phase
      cases phase

/-- What `V` leaves alone of the threads. -/
structure SamePlaces (threads after : ThreadSystem) : Prop where
  continuation : after.continuation = threads.continuation
  forked : after.forked = threads.forked
  current : after.currentThread = threads.currentThread
  phase : after.phase = threads.phase

/-- `V` leaves alone where the threads are. -/
theorem v_samePlaces {threads : ThreadSystem} (inv : threads.Invariant) (semaphore : Nat) :
    SamePlaces threads (threads.v semaphore) := by
  obtain ⟨semaphores, status, readyList, woke⟩ := inv.v_frame semaphore
  rw [woke]
  exact ⟨rfl, rfl, rfl, rfl⟩

/-- `V` between the two calls of `SetLevel` is `V` of the threads, when interrupts are off. -/
theorem wake_eq (off : sys.level = .intOff) (semaphore : Nat) :
    sys.wake semaphore = { sys with threads := sys.threads.v semaphore } := by
  unfold wake
  rw [assertOff_eq off]
  split <;> rfl

/-- `V` in an interrupt handler leaves interrupts off. -/
theorem handlerV_eq (off : sys.level = .intOff) (semaphore : Nat) :
    sys.handlerV semaphore = { sys with threads := sys.threads.v semaphore } := by
  obtain ⟨threads, level, inHandler, yieldOnReturn, calls, control, failed⟩ := sys
  dsimp only at off
  subst off
  unfold handlerV
  dsimp only
  rw [wake_eq rfl]
  rfl

/-- The handlers of a list of interrupts wake threads, and may ask for a yield. -/
theorem handle_all (due : List HandlerCall) : ∀ {sys : LevelSystem}, sys.level = .intOff →
    sys.threads.Invariant → ∃ threads yieldOnReturn,
      due.foldl handle sys = { sys with threads, yieldOnReturn } ∧ threads.Invariant ∧
      SamePlaces sys.threads threads := by
  -- Over the handlers that are due: none of them moves a thread off the processor.
  induction due with
  | nil => exact fun _ inv => ⟨_, _, rfl, inv, rfl, rfl, rfl, rfl⟩
  | cons call rest ih =>
    intro sys off inv
    -- A handler that calls `V` moves at most one thread to the ready list.
    cases call with
    | v semaphore =>
      have places := v_samePlaces inv semaphore
      obtain ⟨threads, yieldOnReturn, result, after, later⟩ :=
        @ih { sys with threads := sys.threads.v semaphore } off (inv.v semaphore).inv
      refine ⟨threads, yieldOnReturn, ?_, after, later.continuation.trans places.continuation,
        later.forked.trans places.forked, later.current.trans places.current,
        later.phase.trans places.phase⟩
      rw [List.foldl_cons]
      change rest.foldl handle (sys.handlerV semaphore) = _
      rw [handlerV_eq off]
      exact result
    -- A handler that asks for a yield only notes it.
    | yieldOnReturn =>
      obtain ⟨threads, yieldOnReturn, result, after, later⟩ :=
        @ih { sys with yieldOnReturn := true } off inv
      exact ⟨threads, yieldOnReturn, result, after, later⟩

/-- `CheckIfDue` is called with interrupts off, and does no more than its handlers do. -/
theorem Sound.checkIfDue (sound : sys.Sound) (off : sys.level = .intOff) (due : List HandlerCall) :
    (sys.checkIfDue due).Sound ∧ (sys.checkIfDue due).level = .intOff ∧
      (sys.checkIfDue due).currentCalls = sys.currentCalls ∧
      SamePlaces sys.threads (sys.checkIfDue due).threads := by
  -- The handlers change the threads and the note, and nothing else.
  obtain ⟨threads, yieldOnReturn, result, inv, places⟩ :=
    @handle_all due { sys with inHandler := true } off sound.threads
  have ends : sys.checkIfDue due = { sys with threads, yieldOnReturn, inHandler := false } := by
    unfold LevelSystem.checkIfDue
    rw [assertOff_eq off, result]
  -- The threads are where they were, so all levels are as they were.
  have kept := sound.rethread inv places.continuation places.forked places.current places.phase
  rw [ends]
  refine ⟨⟨inv, kept.failed, rfl, kept.off, kept.out, kept.unborn⟩, off, ?_, places⟩
  unfold currentCalls
  dsimp only
  rw [places.current]

/-- `OneTick` comes out right, whether or not a handler asks for a yield. -/
theorem Sound.oneTick (sound : sys.Sound) (executing : sys.threads.phase = .executing)
    (settled : Settled .intOn sys.currentCalls) (due : List HandlerCall) :
    (sys.oneTick due).Invariant := by
  -- The tick is counted with interrupts off, and the interrupts that are due are handled.
  have dark := sound.relevel executing .intOff sys.control
  obtain ⟨checked, -, calls, places⟩ := dark.checkIfDue rfl due
  unfold LevelSystem.oneTick
  dsimp only
  generalize LevelSystem.checkIfDue { sys with level := .intOff } due = ticked at *
  -- No handler takes the processor away.
  have still : ticked.threads.phase = .executing := places.phase.trans executing
  have right : Settled .intOn ticked.currentCalls := by
    rw [calls]
    exact settled
  -- Either a handler has asked for a yield, or the tick returns.
  split
  · -- The yield is called with interrupts on, which is what OneTick is to return with.
    have pushed := (checked.setCalls still (.ticks :: ticked.currentCalls)).relevel still .intOn
      ticked.control
    refine Sound.yield ⟨pushed.threads, pushed.failed, pushed.outside, pushed.off, pushed.out,
      pushed.unborn⟩ still ?_
    have top : (ticked.setCalls (.ticks :: ticked.currentCalls)).currentCalls =
        .ticks :: ticked.currentCalls := currentCalls_setCalls ticked (.ticks :: ticked.currentCalls)
    change Settled .intOn (ticked.setCalls (.ticks :: ticked.currentCalls)).currentCalls
    rw [top]
    exact right
  · exact ⟨checked.relevel still .intOn .returns, fun _ => right⟩

/-- `Fork` comes out right: its new thread will start in `Begin`. -/
theorem Sound.fork (sound : sys.Sound) (executing : sys.threads.phase = .executing)
    (settled : Settled sys.level sys.currentCalls) {thread : ThreadNumber}
    (created : thread < sys.threads.created) (unforked : sys.threads.forked thread = false) :
    (sys.fork thread).Invariant := by
  -- Inside the call interrupts are off.
  obtain ⟨entered, off, threads, right⟩ := sound.enter executing settled
  -- The new thread is on the ready list, and the caller goes on to `Yield`.
  have onward := sound.threads.started created unforked
  have started := sound.threads.started_eq unforked
  have current : (sys.threads.started thread).currentThread = sys.threads.currentThread := by
    rw [started]
    rfl
  have phase : (sys.threads.started thread).phase = .executing := by
    rw [started]
    exact executing
  unfold LevelSystem.fork
  rw [assertOff_eq off]
  dsimp only
  rw [threads]
  -- What was sound is sound with the new thread, which starts in `Begin`.
  refine Sound.yield ⟨onward.inv, entered.failed, entered.outside, ?_, ?_, ?_⟩ phase ?_
  · exact fun notExecuting => absurd phase notExecuting
  · intro other out
    by_cases new : other = thread
    · -- The new thread has not called anything.
      rw [new, show sys.enter.calls thread = [] from entered.unborn thread (threads ▸ unforked)]
      trivial
    · -- The others come back where they would have come back before.
      have different : other ≠ sys.threads.currentThread := by
        rw [← current]
        exact out.resolve_right fun not => not phase
      have before := entered.out other (.inl (threads ▸ different))
      have back : levelBack { sys.enter with threads := sys.threads.started thread } other =
          sys.enter.levelBack other := by
        simp only [levelBack, started, threads, Function.update_of_ne new]
      rw [back]
      exact before
  · -- Who is not born yet is not the new thread.
    intro other stillUnforked
    refine entered.unborn other ?_
    have different : other ≠ thread := by
      intro same
      rw [same, started] at stillUnforked
      simp at stillUnforked
    rw [started] at stillUnforked
    dsimp only at stillUnforked
    rw [Function.update_of_ne different] at stillUnforked
    rw [threads]
    exact stillUnforked
  · -- The caller has the calls that it had.
    have calls := right sys.enter.level
    unfold currentCalls at calls ⊢
    dsimp only
    rw [current, ← threads]
    exact calls

/-- A test in `P` comes out right, whether it takes a unit or puts the caller to sleep. -/
theorem Sound.tested (sound : sys.Sound) (off : sys.level = .intOff)
    (settled : Settled .intOff sys.currentCalls) {before : ThreadSystem} {semaphore : Nat}
    (forked : before.forked = sys.threads.forked)
    (continuation : before.continuation = sys.threads.continuation)
    (current : before.currentThread = sys.threads.currentThread)
    (inv : (before.p semaphore).Invariant) : (sys.tested (before.p semaphore)).Invariant := by
  by_cases zero : (before.semaphores semaphore).value = 0
  · -- The caller goes to sleep, and will get the processor back with interrupts off.
    have result := ThreadSystem.p_zero zero
    have ends : sys.tested (before.p semaphore) =
        { sys with threads := before.p semaphore } := by
      unfold LevelSystem.tested
      rw [assertOff_eq off, result]
    rw [ends]
    refine ⟨⟨inv, sound.failed, sound.outside, fun _ => off, fun thread _ => ?_,
      fun thread unforked => ?_⟩, fun running => ?_⟩
    · -- The caller comes back with interrupts off, in this same call.
      by_cases caller : thread = sys.threads.currentThread
      · have back : levelBack { sys with threads := before.p semaphore }
            sys.threads.currentThread = .intOff := by
          simp only [levelBack, result, current, Function.update_self]
        rw [caller, back]
        exact settled
      · -- The others come back where they would have come back before.
        have back : levelBack { sys with threads := before.p semaphore } thread =
            sys.levelBack thread := by
          simp only [levelBack, result, current, continuation, Function.update_of_ne caller]
        rw [back]
        exact sound.out thread (.inl caller)
    · -- No thread was born in this step.
      rw [result] at unforked
      exact sound.unborn thread (forked ▸ unforked)
    · -- The processor is on its way to another thread.
      rw [result] at running
      cases running
  · -- The caller has its unit, and comes to the end of `P` with interrupts still off.
    have result := ThreadSystem.p_pos zero
    have ends : sys.tested (before.p semaphore) =
        { sys with threads := before.p semaphore, control := .returns } := by
      unfold LevelSystem.tested
      rw [result]
    rw [ends]
    have same : (before.p semaphore).currentThread = sys.threads.currentThread := by
      rw [result]
      exact current
    refine ⟨⟨inv, sound.failed, sound.outside, fun _ => off, fun thread out => ?_,
      fun thread unforked => ?_⟩, fun _ => ?_⟩
    · -- The caller executes on, and the others are out as before.
      have different : thread ≠ sys.threads.currentThread := by
        rw [← same]
        refine out.resolve_right fun notExecuting => notExecuting ?_
        rw [result]
      have back : levelBack { sys with threads := before.p semaphore, control := .returns } thread =
          sys.levelBack thread := by
        simp only [levelBack, result, continuation]
      rw [back]
      exact sound.out thread (.inl different)
    · -- No thread was born in this step.
      rw [result] at unforked
      exact sound.unborn thread (forked ▸ unforked)
    · -- The call returns with interrupts off.
      unfold Placed currentCalls
      dsimp only
      rw [same, off]
      exact settled

/-- `P` comes out right. -/
theorem Sound.p (sound : sys.Sound) (executing : sys.threads.phase = .executing)
    (settled : Settled sys.level sys.currentCalls) (semaphore : Nat) :
    (sys.p semaphore).Invariant := by
  -- Inside the call interrupts are off, and the test is the one of `tested`.
  obtain ⟨entered, off, threads, right⟩ := sound.enter executing settled
  have clean : sys.threads.toBeDestroyed = none := sound.threads.destroyed (by simp [executing])
  have onward := sound.threads.p (by simp [executing]) clean semaphore
  unfold LevelSystem.p
  apply entered.tested off (right _)
  · rw [threads]
  · rw [threads]
  · rw [threads]
  · exact onward.inv

/-- `V` comes out right. -/
theorem Sound.v (sound : sys.Sound) (executing : sys.threads.phase = .executing)
    (settled : Settled sys.level sys.currentCalls) (semaphore : Nat) :
    (sys.v semaphore).Invariant := by
  -- Inside the call interrupts are off, as the handler lists want it.
  obtain ⟨entered, off, threads, right⟩ := sound.enter executing settled
  have places := v_samePlaces sound.threads semaphore
  unfold LevelSystem.v
  rw [wake_eq off, threads]
  -- The thread that is woken was out, and is still.
  have kept := entered.rethread (sound.threads.v semaphore).inv (threads ▸ places.continuation)
    (threads ▸ places.forked) (threads ▸ places.current) (threads ▸ places.phase)
  refine kept.returns ?_
  have calls := right sys.enter.level
  unfold currentCalls at calls ⊢
  dsimp only
  rw [places.current, ← threads]
  exact calls

/-- `Finish` comes to `Sleep` with interrupts off, and its caller is in no other call. -/
theorem Sound.finish (sound : sys.Sound) (executing : sys.threads.phase = .executing)
    (own : sys.currentCalls = []) : sys.finish.Invariant := by
  -- `Finish` turns interrupts off for good, and asserts it.
  unfold LevelSystem.finish
  rw [assertOff_eq rfl]
  refine ⟨⟨(sound.threads.finish executing).inv, sound.failed, sound.outside, fun _ => rfl,
    fun thread _ => ?_, sound.unborn⟩, fun running => ?_⟩
  · by_cases caller : thread = sys.threads.currentThread
    · -- The caller has nothing left to return to.
      have none : sys.calls thread = [] := by
        rw [caller]
        exact own
      dsimp only
      rw [none]
      trivial
    · -- The others are as they were.
      exact sound.out thread (.inl caller)
  · -- The processor is on its way to another thread.
    cases running

/-- A turn of the loop of `Sleep` comes out right, whether it dispatches a thread or idles. -/
theorem Sound.sleepLoop {finishing : Bool} (sound : sys.Sound)
    (sleeping : sys.threads.phase = .sleeping finishing) {due : List HandlerCall}
    (turned : sys.sleepLoop due = some next) : next.Invariant := by
  have off : sys.level = .intOff := sound.off (by simp [sleeping])
  -- The assertion of the source holds in every turn.
  unfold LevelSystem.sleepLoop at turned
  rw [assertOff_eq off] at turned
  dsimp only at turned
  cases readyList : sys.threads.readyList with
  -- Nobody is ready: time goes on, and interrupts that are due are handled.
  | nil =>
    rw [readyList] at turned
    cases turned
    obtain ⟨checked, -, -, places⟩ := sound.checkIfDue off due
    refine ⟨checked, fun running => ?_⟩
    rw [places.phase, sleeping] at running
    cases running
  -- Somebody is ready, and gets the processor.
  | cons nextThread rest =>
    rw [readyList, assertOff_eq off] at turned
    obtain ⟨threads, stepped, rfl⟩ := Option.map_eq_some_iff.mp turned
    have onward := sound.threads.step stepped
    -- The dispatch moves the processor, and nothing else that is looked at here.
    have clean : sys.threads.toBeDestroyed = none := sound.threads.destroyed (by simp [sleeping])
    have result : threads = { sys.threads with readyList := rest }.run nextThread finishing := by
      unfold ThreadSystem.step at stepped
      rw [if_neg (by simp [sound.threads.sound]), sleeping, readyList] at stepped
      cases stepped
      rw [← sleeping]
    rw [ThreadSystem.run_eq (by exact clean)] at result
    refine ⟨⟨onward.inv, sound.failed, sound.outside, fun _ => off, fun thread _ => ?_,
      fun thread unforked => ?_⟩, fun running => ?_⟩
    · -- Whoever is out stays out.
      have back : levelBack { sys with threads } thread = sys.levelBack thread := by
        rw [result]
        rfl
      rw [back]
      exact sound.out thread (.inr (by simp [sleeping]))
    · -- No thread was born in this step.
      refine sound.unborn thread ?_
      rw [result] at unforked
      exact unforked
    · -- The processor is on its way to the next thread.
      rw [result] at running
      cases running

/-- Deleting the carcass leaves the threads where they are. -/
theorem checkToBeDestroyed_samePlaces (threads : ThreadSystem) :
    SamePlaces threads threads.checkToBeDestroyed := by
  obtain ⟨threadCnt, cleaned⟩ := threads.checkToBeDestroyed_frame
  rw [cleaned]
  exact ⟨rfl, rfl, rfl, rfl⟩

/-- What a thread does after `SWITCH` comes out right, in `Begin` as in `Run`. -/
theorem Sound.goOn (sound : sys.Sound) (resuming : sys.threads.phase = .resuming) :
    sys.goOn.Invariant := by
  -- The processor is given back with interrupts off.
  have off : sys.level = .intOff := sound.off (by simp [resuming])
  have places := checkToBeDestroyed_samePlaces sys.threads
  have onward := sound.threads.resume resuming
  have right := sound.out sys.threads.currentThread (.inr (by simp [resuming]))
  unfold levelBack at right
  -- But for a thread that tests its semaphore, the thread is in its code again.
  have back : ∀ control, sys.threads.resume =
      { sys.threads.checkToBeDestroyed with phase := .executing } →
        Sound { sys with threads := sys.threads.resume, control } := by
    intro control result
    refine ⟨onward.inv, sound.failed, sound.outside, fun _ => off, fun thread _ => ?_,
      fun thread unforked => ?_⟩
    · -- Whoever is out comes back where it would have.
      have same : levelBack { sys with threads := sys.threads.resume, control } thread =
          sys.levelBack thread := by
        simp only [levelBack, result, places.continuation]
      rw [same]
      exact sound.out thread (.inr (by simp [resuming]))
    · -- No thread was born in this step.
      refine sound.unborn thread ?_
      rw [result] at unforked
      exact places.forked ▸ unforked
  unfold LevelSystem.goOn
  dsimp only
  -- By cases on where the thread had left off.
  cases continuation : sys.threads.continuation sys.threads.currentThread with
  | begins =>
    -- Begin enables interrupts, and the thread comes to its code.
    obtain ⟨-, result⟩ | ⟨semaphore, tests, -⟩ := sys.threads.resume_cases
    swap
    · rw [continuation] at tests
      cases tests
    dsimp only
    refine (back sys.control result).setLevel ?_ ?_
    · rw [result]
    · rw [continuation] at right
      unfold currentCalls
      dsimp only
      rw [result]
      dsimp only
      rw [places.current]
      exact right
  -- The thread is back in `Yield`, with interrupts off, and returns.
  | yields =>
    obtain ⟨-, result⟩ | ⟨semaphore, tests, -⟩ := sys.threads.resume_cases
    swap
    · rw [continuation] at tests
      cases tests
    dsimp only
    rw [assertOff_eq off]
    refine (back sys.control result).returns ?_
    rw [continuation] at right
    unfold currentCalls
    dsimp only
    rw [result, off]
    dsimp only
    rw [places.current]
    exact right
  -- The thread is back in `P`, and tests the semaphore again.
  | tests semaphore =>
    obtain ⟨others, -⟩ | ⟨semaphore', tests, result⟩ := sys.threads.resume_cases
    · exact absurd continuation (others semaphore)
    rw [continuation] at tests
    cases tests
    dsimp only
    rw [assertOff_eq off, result]
    rw [continuation] at right
    apply sound.tested off right places.forked places.continuation places.current
    rw [← result]
    exact onward.inv

/-- A call returns to its caller at the level that the caller is to find. -/
theorem Sound.leave (sound : sys.Sound) (executing : sys.threads.phase = .executing)
    (control : sys.control = .returns) (settled : Settled sys.level sys.currentCalls) :
    sys.leave.Invariant := by
  -- The end of a call that does not set the level.
  have returns : ∀ rest, Settled sys.level rest → (sys.setCalls rest).Invariant := by
    intro rest right
    have top : (sys.setCalls rest).currentCalls = rest := currentCalls_setCalls sys rest
    refine ⟨sound.setCalls executing rest, fun _ => ?_⟩
    unfold Placed
    rw [show (sys.setCalls rest).control = .returns from control, top]
    exact right
  -- By cases on the innermost call, which is the one that returns.
  unfold LevelSystem.leave
  cases calls : sys.currentCalls with
  -- There is none: the thread is in its own code.
  | nil => exact ⟨sound.relevel executing sys.level .own, fun _ => calls⟩
  | cons call rest =>
    rw [calls] at settled
    cases call with
    -- The end of `Yield`, `P`, `V` or `Fork` sets the level that was found.
    | restores oldLevel =>
      apply (sound.setCalls executing rest).setLevel executing
      rw [currentCalls_setCalls]
      exact settled
    -- The others just go back to their caller.
    | ticks => exact returns rest settled
    | called before => exact returns rest settled.2

/-- A step of the threads that moves nobody, in the code of the current thread, comes out right. -/
theorem Invariant.still (inv : sys.Invariant) {threads : ThreadSystem} {event : ThreadEvent}
    (stepped : sys.threads.step event = some threads) (places : SamePlaces sys.threads threads) :
    Invariant { sys with threads } where
  sound := inv.sound.rethread (inv.sound.threads.step stepped).inv places.continuation
    places.forked places.current places.phase
  placed running := by
    have before := inv.placed (places.phase.symm.trans running)
    unfold Placed currentCalls at before ⊢
    dsimp only
    rw [places.current]
    exact before

/-- Every step keeps the invariant. -/
theorem Invariant.step {event : LevelEvent} (inv : sys.Invariant)
    (stepped : sys.step event = some next) : next.Invariant := by
  have sound := inv.sound
  unfold LevelSystem.step at stepped
  -- No assertion has failed so far.
  rw [if_neg (by simp [sound.failed])] at stepped
  -- In its own code the current thread is in no call, and any level is right for it.
  have own : sys.threads.phase = .executing → sys.control = .own → sys.currentCalls = [] := by
    intro executing control
    have placed := inv.placed executing
    unfold Placed at placed
    rw [control] at placed
    exact placed
  have free : sys.threads.phase = .executing → sys.control = .own →
      ∀ level, Settled level sys.currentCalls := by
    intro executing control level
    rw [own executing control]
    trivial
  -- By cases on what is executing and on the event, as the definition has them.
  split at stepped
  case h_1 => exact sound.sleepLoop ‹_› stepped
  case h_2 =>
    cases stepped
    exact sound.goOn ‹_›
  -- A call is at its end, and its level is the right one.
  case h_3 =>
    rename_i executing control
    cases stepped
    have placed := inv.placed executing
    unfold Placed at placed
    rw [control] at placed
    exact sound.leave executing control placed
  -- `SetLevel` has enabled interrupts, and time advances.
  case h_4 =>
    rename_i executing control
    cases stepped
    have placed := inv.placed executing
    unfold Placed at placed
    rw [control] at placed
    exact sound.oneTick executing placed _
  -- The thread sets the level itself.
  case h_5 =>
    rename_i executing control
    cases stepped
    exact sound.setLevel executing (free executing control _)
  -- Making a thread moves nobody.
  case h_6 =>
    rename_i executing _
    cases stepped
    have created : sys.threads.step .createThread = some sys.threads.createThread := by
      unfold ThreadSystem.step
      rw [if_neg (by simp [sound.threads.sound]), executing]
    apply inv.still created
    unfold ThreadSystem.createThread
    split <;> exact ⟨rfl, rfl, rfl, rfl⟩
  -- A priority is set, which moves nobody.
  case h_7 =>
    rename_i executing _
    obtain ⟨threads, moved, result⟩ := Option.bind_eq_some_iff.mp stepped
    cases result
    apply inv.still moved
    unfold ThreadSystem.step at moved
    rw [if_neg (by simp [sound.threads.sound]), executing] at moved
    cases moved
    exact ⟨rfl, rfl, rfl, executing.symm⟩
  -- The calls that begin here: Fork, Yield, P, V, Finish and a tick.
  case h_8 =>
    rename_i executing control
    rw [Option.ite_none_right_eq_some, Option.some.injEq] at stepped
    obtain ⟨⟨created, unforked⟩, rfl⟩ := stepped
    exact sound.fork executing (free executing control _) created unforked
  case h_9 =>
    rename_i executing control
    cases stepped
    exact sound.yield executing (free executing control _)
  case h_10 =>
    rename_i executing control
    cases stepped
    exact sound.p executing (free executing control _) _
  case h_11 =>
    rename_i executing control
    cases stepped
    exact sound.v executing (free executing control _) _
  case h_12 =>
    rename_i executing control
    cases stepped
    exact sound.finish executing (own executing control)
  case h_13 =>
    rename_i executing control
    cases stepped
    exact sound.oneTick executing (free executing control _) _
  case h_14 => cases stepped

/-- The kernel starts with its main thread in its own code. -/
theorem invariant_start (initialValue : Nat → Int) (level : IntStatus) :
    (start initialValue level).Invariant where
  sound := ⟨ThreadSystem.invariant_start initialValue, rfl, rfl,
    fun notExecuting => absurd rfl notExecuting, fun _ _ => trivial, fun _ _ => rfl⟩
  placed _ := rfl

/-- Every run keeps the invariant. -/
theorem Invariant.run (events : List LevelEvent) : ∀ {sys next : LevelSystem}, sys.Invariant →
    replay LevelSystem.step sys events = some next → next.Invariant := by
  induction events with
  | nil =>
    intro sys next inv ran
    cases ran
    exact inv
  | cons event rest ih =>
    intro sys next inv ran
    obtain ⟨middle, stepped, ran⟩ := Option.bind_eq_some_iff.mp ran
    exact ih (inv.step stepped) ran

end LevelSystem

/--
Interrupt levels are respected, in every run of the kernel.

No assertion on the level fails, in the code of the threads or of the scheduler, or in a handler.
Whenever `Fork`, `Yield`, `P` or `V` returns, the level is what it was when the thread called it,
whoever has run in between. `V` in a handler, which is called with interrupts off, leaves them so.
-/
theorem levels_respected (initialValue : Nat → Int) (level : IntStatus) (events : List LevelEvent)
    (sys : LevelSystem)
    (reached : replay LevelSystem.step (.start initialValue level) events = some sys) :
    sys.failed = false ∧
    (sys.threads.phase = .executing → sys.control = .returns →
      ∀ before rest, sys.currentCalls = .called before :: rest → sys.level = before) ∧
    ∀ handling : LevelSystem, handling.level = .intOff →
      ∀ semaphore, (handling.handlerV semaphore).level = .intOff := by
  -- Everything is read off the invariant of the state.
  have inv := (LevelSystem.invariant_start initialValue level).run events reached
  refine ⟨inv.sound.failed, fun executing control before rest calls => ?_,
    fun handling off semaphore => ?_⟩
  -- A call that is about to return has the level that it found.
  · have placed := inv.placed executing
    unfold LevelSystem.Placed at placed
    rw [control, calls] at placed
    exact placed.1
  · -- A handler is called with interrupts off, and `V` leaves them off.
    rw [LevelSystem.handlerV_eq off]
    exact off

/-- A fork returns with interrupts on, after its new thread was interrupted and has yielded. -/
theorem levels_respected_fork :
    ∃ sys, replay LevelSystem.step (.start (fun _ => 0) .intOn)
        [.createThread, .fork 1, .kernel [], .kernel [.v 3, .yieldOnReturn], .kernel [],
          .kernel [], .kernel [], .kernel [], .kernel []] = some sys ∧
      sys.control = .returns ∧ sys.currentCalls = [.called .intOn] ∧ sys.level = .intOn := by
  refine ⟨_, rfl, rfl, rfl, ?_⟩
  exact (levels_respected (fun _ => 0) .intOn
    [.createThread, .fork 1, .kernel [], .kernel [.v 3, .yieldOnReturn], .kernel [],
      .kernel [], .kernel [], .kernel [], .kernel []] _ rfl).2.1 rfl rfl .intOn [] rfl

end Nachos
