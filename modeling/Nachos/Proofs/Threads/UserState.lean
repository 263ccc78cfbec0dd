import Nachos.Proofs.Threads.Scheduler
import Nachos.Threads.UserState

/-! A user program finds the machine as it left it, whoever has run in between. -/

namespace Nachos

namespace ThreadSystem

variable {sys next : ThreadSystem} {thread : ThreadNumber}

/-- The thread was switched out in the middle of its code, to which it goes back. -/
def Inside (sys : ThreadSystem) (thread : ThreadNumber) : Prop :=
  sys.forked thread = true ∧ sys.continuation thread ≠ .begins

/-- A thread that a step leaves alone is inside of its code if it was before. -/
theorem Inside.congr (inside : sys.Inside thread) (forked : next.forked = sys.forked)
    (continuation : next.continuation = sys.continuation) : next.Inside thread := by
  unfold Inside
  rw [forked, continuation]
  exact inside

/-- What a step does to the processor, and to where the threads go on. -/
inductive Moved (sys next : ThreadSystem) : Prop
  -- The current thread goes on with its code, or sleeps on, or comes back to its code.
  | stays (forked : next.forked = sys.forked) (continuation : next.continuation = sys.continuation)
    (current : next.currentThread = sys.currentThread)
    (phase : next.phase = sys.phase ∨ (sys.phase = .resuming ∧ next.phase = .executing))
  -- The current thread is done.
  | finishes (forked : next.forked = sys.forked)
    (continuation : next.continuation = sys.continuation)
    (current : next.currentThread = sys.currentThread) (phase : next.phase = .sleeping true)
    (done : next.status sys.currentThread = .zommbie)
  -- The current thread goes to sleep in `P`.
  | sleeps (semaphore : Nat) (forked : next.forked = sys.forked)
    (continuation : next.continuation =
      Function.update sys.continuation sys.currentThread (.tests semaphore))
    (current : next.currentThread = sys.currentThread) (phase : next.phase = .sleeping false)
  -- The current thread yields.
  | yields (forked : next.forked = sys.forked)
    (continuation : next.continuation = Function.update sys.continuation sys.currentThread .yields)
    (executing : sys.phase = .executing) (phase : next.phase = .resuming)
  -- The current thread forks a new one, and yields.
  | forks (thread : ThreadNumber) (unforked : sys.forked thread = false)
    (forked : next.forked = Function.update sys.forked thread true)
    (continuation : next.continuation = Function.update
      (Function.update sys.continuation thread .begins) sys.currentThread .yields)
    (executing : sys.phase = .executing) (phase : next.phase = .resuming)
  -- A sleep ends with a dispatch.
  | dispatches (finishing : Bool) (forked : next.forked = sys.forked)
    (continuation : next.continuation = sys.continuation)
    (sleeping : sys.phase = .sleeping finishing) (phase : next.phase = .resuming)

/-- `V` moves nobody. -/
theorem Invariant.v_moved (inv : sys.Invariant) (semaphore : Nat) : sys.Moved (sys.v semaphore) := by
  obtain ⟨semaphores, status, readyList, woke⟩ := inv.v_frame semaphore
  rw [woke]
  exact .stays rfl rfl rfl (.inl rfl)

/-- `P` moves its caller, if it moves anybody, also when the carcass has just been deleted. -/
theorem p_moved {before : ThreadSystem} (forked : before.forked = sys.forked)
    (continuation : before.continuation = sys.continuation)
    (current : before.currentThread = sys.currentThread) (semaphore : Nat)
    (awake : sys.phase = .executing ∨ sys.phase = .resuming) :
    sys.Moved (before.p semaphore) := by
  by_cases zero : (before.semaphores semaphore).value = 0
  · -- The caller sleeps now, in the loop of `P`.
    rw [p_zero zero]
    refine .sleeps semaphore forked ?_ current rfl
    rw [← continuation, ← current]
  · -- The caller goes on where it was.
    rw [p_pos zero]
    refine .stays forked continuation current ?_
    rcases awake with executing | resuming
    · exact .inl executing.symm
    · exact .inr ⟨resuming, rfl⟩

/-- Every step moves the processor in one of these ways. -/
theorem Invariant.moved {event : ThreadEvent} (inv : sys.Invariant)
    (stepped : sys.step event = some next) : sys.Moved next := by
  -- By cases on the step, and on whether there is anybody to dispatch.
  cases ThreadSystem.step_cases stepped with
  -- Making a thread, and an order of priorities, move nobody.
  | creates =>
    unfold createThread
    split <;> exact .stays rfl rfl rfl (.inl rfl)
  | orders => exact .stays rfl rfl rfl (.inl rfl)
  | forks phase thread created unforked =>
    have onward := inv.started created unforked
    have started := inv.started_eq unforked
    -- The new thread is on the ready list, so the yield is a dispatch.
    have waiting : (sys.started thread).readyList ≠ [] := by
      rw [started]
      intro empty
      have member : thread ∈ insertWalk sys.priorityCompare thread sys.readyList :=
        mem_insertWalk.mpr (.inl rfl)
      dsimp only at empty
      rw [empty] at member
      cases member
    have executing : (sys.started thread).phase = .executing := by
      rw [started]
      exact phase
    cases readyList : (sys.started thread).readyList with
    | nil => exact absurd readyList waiting
    | cons nextThread rest =>
      -- The caller yields in `Fork`.
      rw [onward.inv.yield_cons executing readyList, started]
      exact .forks thread unforked rfl rfl phase rfl
  -- With nobody ready a yield moves nobody.
  | yields phase =>
    cases readyList : sys.readyList with
    | nil =>
      rw [yield_nil readyList]
      exact .stays rfl rfl rfl (.inl rfl)
    | cons nextThread rest =>
      rw [inv.yield_cons phase readyList]
      exact .yields rfl rfl phase rfl
  -- A test in `P`, and the call of `V`.
  | tests phase => exact p_moved rfl rfl rfl _ (.inl phase)
  | wakes => exact inv.v_moved _
  -- The caller is done.
  | finishes =>
    refine .finishes rfl rfl rfl rfl ?_
    simp [ThreadSystem.finish, setStatus]
  -- The thread in the loop of `Sleep` dispatches another one.
  | dispatches finishing nextThread rest phase =>
    have clean : sys.toBeDestroyed = none := inv.destroyed (by simp [phase])
    rw [run_eq (by exact clean)]
    exact .dispatches _ rfl rfl phase rfl
  -- The carcass goes, and the thread is back in its code, or tests again.
  | resumes phase =>
    obtain ⟨threadCnt, cleaned⟩ := sys.checkToBeDestroyed_frame
    rcases sys.resume_cases with ⟨-, result⟩ | ⟨semaphore, -, result⟩
    · rw [result, cleaned]
      exact .stays rfl rfl rfl (.inr ⟨phase, rfl⟩)
    · rw [result, cleaned]
      apply p_moved
      · rfl
      · rfl
      · rfl
      · exact .inr phase

/-- A thread that is inside of its code stays so, wherever the processor goes. -/
theorem Inside.moved (inside : sys.Inside thread) (moved : sys.Moved next) : next.Inside thread := by
  obtain ⟨wasForked, notNew⟩ := inside
  -- The change of one continuation leaves the thread inside, or puts it there.
  have changed : ∀ (other : ThreadNumber) (after : Continuation), after ≠ .begins →
      Function.update sys.continuation other after thread ≠ .begins := by
    intro other after different
    by_cases same : thread = other
    · rw [same, Function.update_self]
      exact different
    · rw [Function.update_of_ne same]
      exact notNew
  -- By cases on how the processor moves.
  cases moved with
  -- In these no continuation changes.
  | stays forked continuation => exact Inside.congr ⟨wasForked, notNew⟩ forked continuation
  | finishes forked continuation => exact Inside.congr ⟨wasForked, notNew⟩ forked continuation
  | dispatches _ forked continuation => exact Inside.congr ⟨wasForked, notNew⟩ forked continuation
  -- The caller is in `P` now, or in `Yield`.
  | sleeps semaphore forked continuation =>
    unfold Inside
    rw [forked, continuation]
    exact ⟨wasForked, changed _ _ (by simp)⟩
  | yields forked continuation =>
    unfold Inside
    rw [forked, continuation]
    exact ⟨wasForked, changed _ _ (by simp)⟩
  -- The new thread is another one, since this one was forked before.
  | forks new unforked forked continuation =>
    have different : thread ≠ new := by
      intro same
      rw [same, unforked] at wasForked
      cases wasForked
    unfold Inside
    rw [forked, continuation, Function.update_of_ne different]
    refine ⟨wasForked, ?_⟩
    -- The caller of `Fork` yields in it.
    by_cases same : thread = sys.currentThread
    · rw [same, Function.update_self]
      simp
    · rw [Function.update_of_ne same, Function.update_of_ne different]
      exact notNew

/-- Whoever executes goes on with its code, is switched out inside of it, or is done. -/
theorem Moved.current (moved : sys.Moved next) (inv : sys.Invariant)
    (executing : sys.phase = .executing) :
    (sys.currentThread = next.currentThread ∧ next.phase = .executing) ∨
      next.Inside sys.currentThread ∨ next.status sys.currentThread = .zommbie := by
  -- A thread that executes was forked.
  have forkedBefore := inv.current_forked (by simp [executing])
  -- It goes on, or is off the processor inside a call, or has finished.
  cases moved with
  | stays _ _ current phase =>
    refine .inl ⟨current.symm, ?_⟩
    rcases phase with same | ⟨-, back⟩
    · exact same.trans executing
    · exact back
  | finishes _ _ _ _ done => exact .inr (.inr done)
  -- Nobody is dispatched while a thread executes.
  | dispatches _ _ _ sleeping =>
    rw [executing] at sleeping
    cases sleeping
  -- The caller is in `P`.
  | sleeps semaphore forked continuation =>
    refine .inr (.inl ⟨by rw [forked]; exact forkedBefore, ?_⟩)
    rw [continuation, Function.update_self]
    simp
  -- The caller is in `Yield`.
  | yields forked continuation =>
    refine .inr (.inl ⟨by rw [forked]; exact forkedBefore, ?_⟩)
    rw [continuation, Function.update_self]
    simp
  | forks new unforked forked continuation =>
    -- The caller of `Fork` is not the thread that it forks.
    have different : sys.currentThread ≠ new := by
      intro same
      rw [same, unforked] at forkedBefore
      cases forkedBefore
    refine .inr (.inl ⟨by rw [forked, Function.update_of_ne different]; exact forkedBefore, ?_⟩)
    rw [continuation, Function.update_self]
    simp

end ThreadSystem

namespace UserSystem

variable {sys next : UserSystem}

/-- What every step of the threads and the machine keeps. -/
structure Invariant (sys : UserSystem) : Prop where
  threads : sys.threads.Invariant
  -- Only a thread that has executed code of its own has an address space.
  inside : ∀ thread, sys.space thread ≠ none →
    (thread = sys.threads.currentThread ∧ sys.threads.phase = .executing) ∨
      sys.threads.Inside thread ∨ sys.threads.status thread = .zommbie
  -- The registers of a user program that is switched out are saved.
  saved : ∀ thread, sys.space thread ≠ none →
    thread ≠ sys.threads.currentThread ∨ sys.threads.phase = .resuming →
    ∀ i < numTotalRegs, sys.userRegisters thread i = sys.leftWith thread i

/-- At the start there is no address space. -/
theorem invariant_start (initialValue : Nat → Int) (machine : Machine) (pid : ThreadNumber → Int)
    (uninitialised : ThreadNumber → Nat → Word) :
    (start initialValue machine pid uninitialised).Invariant where
  threads := ThreadSystem.invariant_start initialValue
  inside _ owns := absurd rfl owns
  saved _ owns := absurd rfl owns

/-- What happens to the machine alone keeps the invariant. -/
theorem Invariant.congr (inv : sys.Invariant) (threads : next.threads = sys.threads)
    (space : next.space = sys.space) (userRegisters : next.userRegisters = sys.userRegisters)
    (leftWith : next.leftWith = sys.leftWith) : next.Invariant where
  threads := threads ▸ inv.threads
  inside := by
    rw [threads, space]
    exact inv.inside
  saved := by
    rw [threads, space, userRegisters, leftWith]
    exact inv.saved

/-- After a step of the threads, an address space still belongs to one that has executed. -/
theorem Invariant.inside_moved (inv : sys.Invariant) {threads : ThreadSystem} {event : ThreadEvent}
    (stepped : sys.threads.step event = some threads) (thread : ThreadNumber)
    (owns : sys.space thread ≠ none) :
    (thread = threads.currentThread ∧ threads.phase = .executing) ∨
      threads.Inside thread ∨ threads.status thread = .zommbie := by
  have moved := inv.threads.moved stepped
  rcases inv.inside thread owns with ⟨rfl, executing⟩ | inside | done
  · exact moved.current inv.threads executing
  · exact .inr (.inl (inside.moved moved))
  · exact .inr (.inr ((inv.threads.step stepped).done thread done))

/-- A step that comes to a dispatch is taken while the current thread is not being switched to. -/
theorem Invariant.saved_stays (inv : sys.Invariant) {threads : ThreadSystem}
    (moved : sys.threads.Moved threads)
    (quiet : sys.threads.phase = .resuming ∨ threads.phase ≠ .resuming) (thread : ThreadNumber)
    (owns : sys.space thread ≠ none)
    (out : thread ≠ threads.currentThread ∨ threads.phase = .resuming) :
    ∀ i < numTotalRegs, sys.userRegisters thread i = sys.leftWith thread i := by
  -- While a thread is switched to, everybody has been saved.
  by_cases resuming : sys.threads.phase = .resuming
  · exact inv.saved thread owns (.inr resuming)
  have notResuming : threads.phase ≠ .resuming := quiet.resolve_left resuming
  have different : thread ≠ threads.currentThread := out.resolve_right notResuming
  -- Without a dispatch the current thread is the same.
  have current : threads.currentThread = sys.threads.currentThread := by
    cases moved with
    | stays _ _ current => exact current
    | finishes _ _ current => exact current
    | sleeps _ _ _ current => exact current
    | yields _ _ _ phase => exact absurd phase notResuming
    | forks _ _ _ _ _ phase => exact absurd phase notResuming
    | dispatches _ _ _ _ phase => exact absurd phase notResuming
  exact inv.saved thread owns (.inl (current ▸ different))

/-- `Run` up to `SWITCH` saves the registers of the thread that is switched out. -/
theorem Invariant.leave_saved (inv : sys.Invariant) (nextThread thread : ThreadNumber)
    (owns : sys.space thread ≠ none) :
    ∀ i < numTotalRegs,
      (sys.leave nextThread).userRegisters thread i = (sys.leave nextThread).leftWith thread i := by
  intro i small
  unfold leave
  -- The registers of the thread that leaves are saved now, and the others were before.
  by_cases old : thread = sys.threads.currentThread
  · have some : (sys.space sys.threads.currentThread).isSome = true := by
      rw [← old]
      exact Option.isSome_iff_ne_none.mpr owns
    simp only [some, if_true, saveUserState, old, Function.update_self, if_pos small]
  · have kept := inv.saved thread owns (.inl old) i small
    -- If the thread that leaves has no address space, nothing is written.
    dsimp only
    split
    · simp only [saveUserState, Function.update_of_ne old, kept]
    · simp only [Function.update_of_ne old, kept]

/-- What a thread does after `SWITCH` is about the machine alone. -/
theorem goOn_frame (sys : UserSystem) :
    sys.goOn.space = sys.space ∧ sys.goOn.userRegisters = sys.userRegisters ∧
      sys.goOn.leftWith = sys.leftWith := by
  -- Restoring the registers writes to the machine.
  have back : ∀ thread, (sys.comeBack thread).space = sys.space ∧
      (sys.comeBack thread).userRegisters = sys.userRegisters ∧
      (sys.comeBack thread).leftWith = sys.leftWith := by
    intro thread
    unfold comeBack
    split <;> exact ⟨rfl, rfl, rfl⟩
  unfold goOn
  -- A new thread has nothing to restore.
  split
  · exact ⟨rfl, rfl, rfl⟩
  · exact back _
  · exact back _

/-- `Execute` gives an address space to nobody but its caller. -/
theorem execute_space_ne (space : SpaceHandle) {thread : ThreadNumber}
    (other : thread ≠ sys.threads.currentThread) :
    (sys.execute space).space thread = sys.space thread :=
  Function.update_of_ne other _ _

/-- Every step keeps the invariant. -/
theorem Invariant.step {event : UserEvent} (inv : sys.Invariant)
    (stepped : sys.step event = some next) : next.Invariant := by
  cases event with
  -- A step of the threads, and what it means for the registers.
  | thread event =>
    obtain ⟨threads, went, stepped⟩ := Option.bind_eq_some_iff.mp stepped
    have onward := inv.threads.step went
    have moved := inv.threads.moved went
    have inside := inv.inside_moved went
    split at stepped
    · -- The thread that comes back restores its own.
      rename_i resuming
      cases stepped
      obtain ⟨space, userRegisters, leftWith⟩ := sys.goOn_frame
      refine ⟨onward.inv, ?_, ?_⟩
      · rw [space]
        exact inside
      · rw [space, userRegisters, leftWith]
        exact inv.saved_stays moved (.inl resuming)
    split at stepped
    · -- The thread that was current is switched out.
      cases stepped
      have space : (sys.leave threads.currentThread).space = sys.space := by
        unfold leave
        dsimp only
        split <;> rfl
      refine ⟨onward.inv, ?_, ?_⟩
      · rw [space]
        exact inside
      · rw [space]
        intro thread owns _
        exact inv.leave_saved threads.currentThread thread owns
    · -- Nobody is switched out, so what was saved stays.
      rename_i quiet
      cases stepped
      exact ⟨onward.inv, inside, inv.saved_stays moved (.inr quiet)⟩
  -- An instruction writes the registers of the machine only.
  | instruction now =>
    simp only [UserSystem.step] at stepped
    split at stepped
    · obtain ⟨machine, -, stepped⟩ := Option.bind_eq_some_iff.mp stepped
      cases stepped
      exact inv.congr rfl rfl rfl rfl
    · cases stepped
  -- The flush writes the page table of the machine only.
  | flush =>
    simp only [UserSystem.step] at stepped
    split at stepped
    · cases stepped
    · obtain ⟨machine, -, stepped⟩ := Option.bind_eq_some_iff.mp stepped
      cases stepped
      exact inv.congr rfl rfl rfl rfl
  -- The current thread gets an address space.
  | execute space =>
    simp only [UserSystem.step] at stepped
    split at stepped
    · rename_i executing
      cases stepped
      refine ⟨inv.threads, ?_, ?_⟩
      · -- It is the thread that executes.
        intro thread owns
        by_cases current : thread = sys.threads.currentThread
        · exact .inl ⟨current, executing⟩
        · rw [execute_space_ne space current] at owns
          exact inv.inside thread owns
      · -- Only the current thread gets an address space, and it is not switched out.
        intro thread owns out
        have current : thread ≠ sys.threads.currentThread := by
          refine out.resolve_right ?_
          change sys.threads.phase ≠ .resuming
          rw [executing]
          simp
        rw [execute_space_ne space current] at owns
        exact inv.saved thread owns (.inl current)
    · cases stepped

end UserSystem

/--
A user program goes on after a context switch with the machine as it left it.

Whichever threads have run in between, and whichever loads interrupts have finished in their
registers, all registers have the values from when the thread was switched out, and the machine
uses the page table of the thread's own address space.
-/
theorem contextSwitch_preserves (initialValue : Nat → Int) (machine : Machine)
    (pid : ThreadNumber → Int) (uninitialised : ThreadNumber → Nat → Word)
    (events : List UserEvent) (sys next : UserSystem)
    (reached : replay UserSystem.step (.start initialValue machine pid uninitialised) events =
      some sys)
    (continues : sys.step (.thread .resume) = some next) (space : SpaceHandle)
    (owns : next.space next.threads.currentThread = some space) :
    (∀ i < numTotalRegs,
      next.machine.registers i = sys.leftWith next.threads.currentThread i) ∧
    next.machine.kernel.pageTable = some space.threadId ∧
    next.machine.kernel.pageTableSize = space.numPages := by
  -- The invariant holds in every state that is reached.
  have inv : sys.Invariant := replay_invariant (fun _ _ _ inv stepped => inv.step stepped)
    (UserSystem.invariant_start initialValue machine pid uninitialised) reached
  obtain ⟨threads, went, continues⟩ := Option.bind_eq_some_iff.mp continues
  -- The step is possible only when `SWITCH` has brought a thread back.
  have resuming : sys.threads.phase = .resuming := by
    cases phase : sys.threads.phase with
    | resuming => rfl
    | executing => simp [ThreadSystem.step, phase] at went
    | sleeping => simp [ThreadSystem.step, phase] at went
  rw [if_pos resuming] at continues
  cases continues
  -- The thread that goes on is the one that was switched to.
  have current : threads.currentThread = sys.threads.currentThread := by
    cases inv.threads.moved went with
    | stays _ _ current => exact current
    | finishes _ _ current => exact current
    | sleeps _ _ _ current => exact current
    | yields _ _ executing => rw [resuming] at executing; cases executing
    | forks _ _ _ _ executing => rw [resuming] at executing; cases executing
    | dispatches _ _ _ sleeping => rw [resuming] at sleeping; cases sleeping
  dsimp only at owns ⊢
  rw [sys.goOn_frame.1, current] at owns
  rw [current]
  -- A thread with an address space is not new, so it goes on in `Run`.
  have notNew : sys.threads.continuation sys.threads.currentThread ≠ .begins := by
    have has : sys.space sys.threads.currentThread ≠ none := by simp [owns]
    -- Having an address space, it was inside its code when it was switched out.
    rcases inv.inside _ has with ⟨-, executing⟩ | inside | done
    · rw [resuming] at executing
      cases executing
    · exact inside.2
    · rw [inv.threads.current (by simp [resuming])] at done
      cases done
  -- So it comes back with its registers.
  have back : sys.goOn = sys.comeBack sys.threads.currentThread := by
    unfold UserSystem.goOn
    split
    · rename_i new
      exact absurd new notNew
    · rfl
    · rfl
  rw [back]
  unfold UserSystem.comeBack
  rw [owns]
  refine ⟨?_, rfl, rfl⟩
  intro i small
  -- What it restores is what it left with.
  have saved := inv.saved sys.threads.currentThread (by simp [owns]) (.inr resuming) i small
  simp only [SpaceHandle.restoreState, UserSystem.restoreUserState, if_pos small, saved]

/-- Two threads start user programs, one while the other is switched out. -/
def twoPrograms : List UserEvent :=
  [.execute ⟨0, 8⟩, .thread .createThread, .thread (.fork 1), .thread .resume, .execute ⟨1, 4⟩,
    .flush, .thread .yield]

/-- The first program goes on with its own stack pointer and its own page table. -/
theorem contextSwitch_preserves_two :
    ∃ sys next, replay UserSystem.step (.start (fun _ => 0)
        ⟨fun _ => 5, .boot (fun _ => none) (fun _ => 0) (fun _ _ => ⟨0, 0, true, 0, 0⟩)
          (fun _ => ⟨0, 0⟩) 0⟩ (fun thread => thread) fun _ _ => 0) twoPrograms = some sys ∧
      sys.step (.thread .resume) = some next ∧ sys.leftWith 0 stackReg = 1008 ∧
      next.machine.registers stackReg = 1008 ∧ next.machine.kernel.pageTable = some 0 := by
  refine ⟨_, _, rfl, rfl, rfl, ?_⟩
  have kept := contextSwitch_preserves (fun _ => 0) ⟨fun _ => 5, .boot (fun _ => none) (fun _ => 0)
    (fun _ _ => ⟨0, 0, true, 0, 0⟩) (fun _ => ⟨0, 0⟩) 0⟩ (fun thread => thread) (fun _ _ => 0)
    twoPrograms _ _ rfl rfl ⟨0, 8⟩ rfl
  exact ⟨kept.1 stackReg (by decide), kept.2.1⟩

end Nachos
