import Nachos.Proofs.Threads.Scheduler

/-! What becomes of a thread that finishes. -/

namespace Nachos

namespace ThreadSystem

variable {sys next : ThreadSystem} {thread : ThreadNumber}

/-- Nobody is done in the second state who is not done in the first. -/
def NobodyEnds (sys next : ThreadSystem) : Prop :=
  ∀ thread, next.status thread = .zommbie → sys.status thread = .zommbie

/-- A state that is given to a thread and is not the last one ends nobody. -/
theorem setStatus_ends {status : ThreadStatus} (notDone : status ≠ .zommbie)
    (sys : ThreadSystem) (thread : ThreadNumber) : sys.NobodyEnds (sys.setStatus thread status) := by
  intro other done
  by_cases same : other = thread
  · simp [setStatus, same, notDone] at done
  · simpa [setStatus, same] using done

/-- A thread that becomes ready ends nobody. -/
theorem readyToRun_ends (sys : ThreadSystem) (thread : ThreadNumber) :
    sys.NobodyEnds (sys.readyToRun thread) := by
  unfold readyToRun
  split
  · exact setStatus_ends (by simp) sys thread
  · exact fun _ => id

/-- A dispatch ends nobody: the thread that has finished was done before. -/
theorem run_ends (sys : ThreadSystem) (nextThread : ThreadNumber) (finishing : Bool) :
    sys.NobodyEnds (sys.run nextThread finishing) := by
  unfold run
  split
  · exact fun _ => id
  · exact setStatus_ends (by simp) sys nextThread

/-- `Yield` ends nobody. -/
theorem yield_ends (sys : ThreadSystem) : sys.NobodyEnds sys.yield := by
  intro thread done
  unfold yield at done
  split at done
  · exact done
  · rename_i nextThread rest _
    have ready := run_ends _ _ _ thread done
    exact readyToRun_ends { sys with readyList := rest, continuation := _ } _ thread ready

/-- Putting a new thread on the ready list ends nobody. -/
theorem started_ends (sys : ThreadSystem) (thread : ThreadNumber) :
    sys.NobodyEnds (sys.started thread) :=
  readyToRun_ends _ _

/-- `P` ends nobody. -/
theorem p_ends (sys : ThreadSystem) (semaphore : Nat) : sys.NobodyEnds (sys.p semaphore) := by
  unfold p
  split
  · exact fun _ => id
  · exact setStatus_ends (by simp) sys sys.currentThread

/-- `V` ends nobody. -/
theorem v_ends (sys : ThreadSystem) (semaphore : Nat) : sys.NobodyEnds (sys.v semaphore) := by
  unfold v
  split
  · exact fun _ => id
  · exact readyToRun_ends _ _

/-- What a thread does after `SWITCH` ends nobody. -/
theorem resume_ends (sys : ThreadSystem) : sys.NobodyEnds sys.resume := by
  obtain ⟨threadCnt, cleaned⟩ := sys.checkToBeDestroyed_frame
  rcases sys.resume_cases with ⟨-, result⟩ | ⟨semaphore, -, result⟩
  · rw [result, cleaned]
    exact fun _ => id
  · rw [result, cleaned]
    exact p_ends _ semaphore

/-- How far a step takes the threads that have finished. -/
inductive Course (sys next : ThreadSystem) : ThreadEvent → Prop
  -- The current thread is done, and looks for another one to run.
  | finishes (executing : sys.phase = .executing) (clean : sys.toBeDestroyed = none)
    (status : next.status = Function.update sys.status sys.currentThread .zommbie)
    (current : next.currentThread = sys.currentThread) (phase : next.phase = .sleeping true)
    (still : next.toBeDestroyed = none) : Course sys next .finish
  -- It is switched away from, and leaves its carcass.
  | leaves (asleep : sys.phase = .sleeping true) (clean : sys.toBeDestroyed = none)
    (ends : sys.NobodyEnds next) (phase : next.phase = .resuming)
    (carcass : next.toBeDestroyed = some sys.currentThread) : Course sys next .dispatch
  -- The carcass is deleted.
  | resumes (resuming : sys.phase = .resuming) (ends : sys.NobodyEnds next)
    (current : next.currentThread = sys.currentThread) (awake : next.phase ≠ .sleeping true)
    (still : next.toBeDestroyed = none) : Course sys next .resume
  | goesOn {event : ThreadEvent} (other : event ≠ .finish ∧ event ≠ .resume)
    (clean : sys.toBeDestroyed = none) (ends : sys.NobodyEnds next)
    (phase : (next.phase = sys.phase ∧ next.currentThread = sys.currentThread) ∨
      (sys.phase ≠ .sleeping true ∧ next.phase ≠ .sleeping true))
    (still : next.toBeDestroyed = none) : Course sys next event

/-- `P` leaves the current thread awake, or in a sleep that it will come back from. -/
theorem p_phase (sys : ThreadSystem) (semaphore : Nat) :
    (sys.p semaphore).phase ≠ .sleeping true ∧
      (sys.p semaphore).currentThread = sys.currentThread ∧
      (sys.p semaphore).toBeDestroyed = sys.toBeDestroyed := by
  unfold p
  split
  · exact ⟨by simp, rfl, rfl⟩
  · exact ⟨by simp, rfl, rfl⟩

/-- `Yield` leaves nobody in the sleep of a thread that has finished. -/
theorem Invariant.yield_phase (inv : sys.Invariant) (executing : sys.phase = .executing) :
    sys.yield.phase ≠ .sleeping true ∧ sys.yield.toBeDestroyed = none := by
  have clean := inv.destroyed (by simp [executing])
  cases readyList : sys.readyList with
  | nil =>
    rw [yield_nil readyList]
    exact ⟨by simp [executing], clean⟩
  | cons nextThread rest =>
    rw [inv.yield_cons executing readyList]
    exact ⟨by simp, clean⟩

/-- Every step takes the threads that have finished on in one of these ways. -/
theorem Invariant.course {event : ThreadEvent} (inv : sys.Invariant)
    (stepped : sys.step event = some next) : sys.Course next event := by
  -- By cases on the step: `Finish`, the dispatch after it, and the return from `SWITCH` matter.
  cases ThreadSystem.step_cases stepped with
  | creates executing =>
    have clean := inv.destroyed (by simp [executing])
    unfold createThread
    -- Room or not, nobody finishes.
    split
    · exact .goesOn (by simp) clean (fun _ => id) (.inl ⟨rfl, rfl⟩) clean
    · exact .goesOn (by simp) clean (fun _ => id) (.inl ⟨rfl, rfl⟩) clean
  -- An order of priorities: nobody finishes, and nothing is to be destroyed.
  | orders executing =>
    have clean := inv.destroyed (by simp [executing])
    exact .goesOn (by simp) clean (fun _ => id) (.inl ⟨rfl, rfl⟩) clean
  -- The new thread is ready, the caller yields, and nobody finishes.
  | forks executing thread created unforked =>
    have still : (sys.started thread).phase = .executing := by
      rw [inv.started_eq unforked]
      exact executing
    obtain ⟨phase, clean⟩ := (inv.started created unforked).inv.yield_phase still
    refine .goesOn (by simp) (inv.destroyed (by simp [executing])) ?_
      (.inr ⟨by simp [executing], phase⟩) clean
    exact fun other done => started_ends sys thread other (yield_ends _ other done)
  -- A yield: nobody finishes, and the caller is resumed later.
  | yields executing =>
    obtain ⟨phase, clean⟩ := inv.yield_phase executing
    exact .goesOn (by simp) (inv.destroyed (by simp [executing])) (yield_ends sys)
      (.inr ⟨by simp [executing], phase⟩) clean
  -- A test in P: nobody finishes.
  | tests executing semaphore =>
    have clean := inv.destroyed (by simp [executing])
    obtain ⟨phase, current, same⟩ := sys.p_phase semaphore
    exact .goesOn (by simp) clean (p_ends sys semaphore) (.inr ⟨by simp [executing], phase⟩)
      (same.trans clean)
  -- A call of V: nobody finishes, whoever is woken.
  | wakes semaphore calls awake =>
    have other : event ≠ .finish ∧ event ≠ .resume := by
      rcases calls with rfl | rfl <;> simp
    have clean := inv.destroyed awake
    have ends := sys.v_ends semaphore
    obtain ⟨semaphores, status, readyList, woke⟩ := inv.v_frame semaphore
    rw [woke] at ends ⊢
    exact .goesOn other clean ends (.inl ⟨rfl, rfl⟩) clean
  -- The end of a thread: it is marked, and goes to sleep for good.
  | finishes executing =>
    have clean := inv.destroyed (by simp [executing])
    exact .finishes executing clean rfl rfl rfl clean
  | dispatches finishing nextThread rest sleeping =>
    have clean : sys.toBeDestroyed = none := inv.destroyed (by simp [sleeping])
    have ends := run_ends { sys with readyList := rest } nextThread finishing
    rw [run_eq (by exact clean)] at ends ⊢
    -- Only a thread that has finished leaves a carcass.
    cases finishing with
    | true => exact .leaves sleeping clean ends rfl rfl
    | false => exact .goesOn (by simp) clean ends (.inr ⟨by simp [sleeping], by simp⟩) rfl
  -- After a `SWITCH` the carcass is gone, and the thread goes on or tests its semaphore.
  | resumes resuming =>
    have clean := sys.checkToBeDestroyed_clean
    have current : sys.checkToBeDestroyed.currentThread = sys.currentThread := by
      obtain ⟨threadCnt, cleaned⟩ := sys.checkToBeDestroyed_frame
      rw [cleaned]
    have ends := sys.resume_ends
    rcases sys.resume_cases with ⟨-, result⟩ | ⟨semaphore, -, result⟩
    · -- The thread goes on with its own code.
      rw [result] at ends ⊢
      exact .resumes resuming ends current (by simp) clean
    · -- The thread tests its semaphore again.
      rw [result] at ends ⊢
      obtain ⟨phase, same, carcass⟩ := sys.checkToBeDestroyed.p_phase semaphore
      exact .resumes resuming ends (same.trans current) phase (carcass.trans clean)

/-- What a step does to the number of threads, and to the carcass. -/
inductive Counts (sys next : ThreadSystem) : ThreadEvent → Prop
  | creates (room : sys.threadCnt + 1 < threadCountMax) (created : next.created = sys.created + 1)
    (count : next.threadCnt = sys.threadCnt + 1) (clean : next.toBeDestroyed = none) :
    Counts sys next .createThread
  | refuses (full : ¬ sys.threadCnt + 1 < threadCountMax) (created : next.created = sys.created)
    (count : next.threadCnt = sys.threadCnt) (clean : next.toBeDestroyed = none) :
    Counts sys next .createThread
  | resumes (resuming : sys.phase = .resuming) (created : next.created = sys.created)
    (count : next.threadCnt = sys.checkToBeDestroyed.threadCnt)
    (clean : next.toBeDestroyed = none) : Counts sys next .resume
  -- Only a dispatch of a thread that has finished leaves a carcass.
  | goesOn {event : ThreadEvent} (neither : event ≠ .createThread ∧ event ≠ .resume)
    (created : next.created = sys.created) (count : next.threadCnt = sys.threadCnt)
    (carcass : next.toBeDestroyed = none ∨
      (next.toBeDestroyed = some sys.currentThread ∧ sys.phase = .sleeping true)) :
    Counts sys next event

/-- `P` deletes nobody and creates nobody. -/
theorem p_counts (sys : ThreadSystem) (semaphore : Nat) :
    (sys.p semaphore).created = sys.created ∧ (sys.p semaphore).threadCnt = sys.threadCnt ∧
      (sys.p semaphore).toBeDestroyed = sys.toBeDestroyed := by
  unfold p
  split <;> exact ⟨rfl, rfl, rfl⟩

/-- `Yield` deletes nobody and creates nobody. -/
theorem Invariant.yield_counts (inv : sys.Invariant) (executing : sys.phase = .executing) :
    sys.yield.created = sys.created ∧ sys.yield.threadCnt = sys.threadCnt ∧
      sys.yield.toBeDestroyed = sys.toBeDestroyed := by
  cases readyList : sys.readyList with
  | nil =>
    rw [yield_nil readyList]
    exact ⟨rfl, rfl, rfl⟩
  | cons nextThread rest =>
    rw [inv.yield_cons executing readyList]
    exact ⟨rfl, rfl, rfl⟩

/-- Every step counts the threads in one of these ways. -/
theorem Invariant.counts {event : ThreadEvent} (inv : sys.Invariant)
    (stepped : sys.step event = some next) : sys.Counts next event := by
  -- By cases on the step: two of them count.
  cases ThreadSystem.step_cases stepped with
  | creates executing =>
    have clean := inv.destroyed (by simp [executing])
    unfold createThread
    -- With room one more thread is made; without it none.
    split
    · rename_i room
      exact .creates room rfl rfl clean
    · rename_i full
      exact .refuses full rfl rfl clean
  -- An order of priorities counts nobody.
  | orders executing =>
    exact .goesOn (by simp) rfl rfl (.inl (inv.destroyed (by simp [executing])))
  | forks executing thread created unforked =>
    -- The new thread is put on the ready list before its creator yields.
    have onward := inv.started created unforked
    have started := inv.started_eq unforked
    have still : (sys.started thread).phase = .executing := by
      rw [started]
      exact executing
    obtain ⟨same, count, carcass⟩ := onward.inv.yield_counts still
    refine .goesOn (by simp) (same.trans ?_) (count.trans ?_) (.inl (carcass.trans ?_))
    · -- Putting a thread on the list counts nobody.
      rw [started]
      rfl
    · rw [started]
      rfl
    · rw [started]
      exact inv.destroyed (by simp [executing])
  -- A yield counts nobody.
  | yields executing =>
    obtain ⟨same, count, carcass⟩ := inv.yield_counts executing
    exact .goesOn (by simp) same count (.inl (carcass.trans (inv.destroyed (by simp [executing]))))
  -- Nor does a test in P.
  | tests executing semaphore =>
    obtain ⟨same, count, carcass⟩ := sys.p_counts semaphore
    exact .goesOn (by simp) same count (.inl (carcass.trans (inv.destroyed (by simp [executing]))))
  -- Nor does a call of V.
  | wakes semaphore calls awake =>
    have other : event ≠ .createThread ∧ event ≠ .resume := by
      rcases calls with rfl | rfl <;> simp
    obtain ⟨semaphores, status, readyList, woke⟩ := inv.v_frame semaphore
    rw [woke]
    exact .goesOn other rfl rfl (.inl (inv.destroyed awake))
  -- A thread that finishes is counted until it is deleted.
  | finishes executing =>
    exact .goesOn (by simp) rfl rfl (.inl (inv.destroyed (by simp [executing])))
  | dispatches finishing nextThread rest sleeping =>
    have clean : sys.toBeDestroyed = none := inv.destroyed (by simp [sleeping])
    rw [run_eq (by exact clean)]
    refine .goesOn (by simp) rfl rfl ?_
    -- The thread that looked for another one is the carcass if it has finished.
    cases finishing with
    | false => exact .inl rfl
    | true => exact .inr ⟨rfl, sleeping⟩
  -- The deletion of the carcass counts one less, and what comes after counts nobody.
  | resumes resuming =>
    have clean := sys.checkToBeDestroyed_clean
    have created : sys.checkToBeDestroyed.created = sys.created := by
      obtain ⟨threadCnt, cleaned⟩ := sys.checkToBeDestroyed_frame
      rw [cleaned]
    rcases sys.resume_cases with ⟨-, result⟩ | ⟨semaphore, -, result⟩
    · rw [result]
      exact .resumes resuming created rfl clean
    · rw [result]
      obtain ⟨same, count, carcass⟩ := sys.checkToBeDestroyed.p_counts semaphore
      exact .resumes resuming (same.trans created) count (carcass.trans clean)

/-- Whoever is not new any more has been created. -/
theorem Invariant.created_of_used (inv : sys.Invariant) {thread : ThreadNumber}
    (used : sys.status thread ≠ .justCreated) : thread < sys.created := by
  by_contra far
  exact used ((inv.unforked thread).mp (inv.fresh thread (Nat.le_of_not_lt far)))

/-- The thread has finished, and nothing has been executed since it was switched away from. -/
def Lingers (sys : ThreadSystem) (thread : ThreadNumber) : Prop :=
  (sys.phase = .sleeping true ∧ sys.currentThread = thread) ∨ sys.toBeDestroyed = some thread

instance (sys : ThreadSystem) (thread : ThreadNumber) : Decidable (sys.Lingers thread) :=
  inferInstanceAs (Decidable (_ ∨ _))

/-- The thread that an event passes to `deleteThread`, if it does. -/
def deletes (sys : ThreadSystem) (event : ThreadEvent) (_next : ThreadSystem) : List ThreadNumber :=
  match event with
  | .resume => sys.toBeDestroyed.toList
  | _ => []

/-- Where the threads are that have finished, and which of them have been deleted. -/
structure Ended (sys : ThreadSystem) (deleted : List ThreadNumber) : Prop where
  inv : sys.Invariant
  done : ∀ thread, sys.Lingers thread → sys.status thread = .zommbie
  deletions : ∀ thread, deleted.count thread =
    if sys.status thread = .zommbie ∧ ¬ sys.Lingers thread then 1 else 0

/-- At the start nobody has finished. -/
theorem ended_start (initialValue : Nat → Int) : (start initialValue).Ended [] := by
  refine ⟨invariant_start initialValue, fun thread lingers => ?_, fun thread => ?_⟩
  · simp [Lingers, start] at lingers
  · by_cases main : thread = 0 <;> simp [start, main]

/-- The threads that have finished go on to their deletion. -/
theorem Ended.step {deleted : List ThreadNumber} {event : ThreadEvent}
    (ended : sys.Ended deleted) (stepped : sys.step event = some next) :
    next.Ended (deleted ++ sys.deletes event next) := by
  have onward := ended.inv.step stepped
  refine ⟨onward.inv, ?_, fun thread => ?_⟩
  · -- Whoever lingers is done.
    intro thread lingers
    cases ended.inv.course stepped with
    -- The caller of `Finish` has just been marked.
    | finishes _ _ status current _ still =>
      rcases lingers with ⟨-, same⟩ | dead
      · simp [status, ← same, current]
      · simp [still] at dead
    -- The carcass is the thread that slept for good.
    | leaves asleep _ _ phase carcass =>
      rcases lingers with ⟨sleeping, -⟩ | dead
      · simp [phase] at sleeping
      · rw [carcass, Option.some.injEq] at dead
        exact onward.done thread (ended.done thread (.inl ⟨asleep, dead⟩))
    -- After the `SWITCH` nobody lingers.
    | resumes _ _ _ awake still =>
      rcases lingers with ⟨sleeping, -⟩ | dead
      · exact absurd sleeping awake
      · simp [still] at dead
    -- Whoever lingers did so before.
    | goesOn _ _ _ phase still =>
      rcases lingers with ⟨sleeping, same⟩ | dead
      · rcases phase with ⟨before, current⟩ | ⟨-, awake⟩
        · exact onward.done thread
            (ended.done thread (.inl ⟨before ▸ sleeping, current ▸ same⟩))
        · exact absurd sleeping awake
      · simp [still] at dead
  · have before := ended.deletions thread
    -- Who was done is done, and but for a call of `Finish` nobody else is.
    have same : sys.NobodyEnds next →
        (next.status thread = .zommbie ↔ sys.status thread = .zommbie) :=
      fun ends => ⟨ends thread, onward.done thread⟩
    cases ended.inv.course stepped with
    -- The caller is done, and not deleted yet.
    | finishes executing clean status current phase still =>
      simp only [deletes, List.append_nil, before]
      by_cases caller : thread = sys.currentThread
      · have runs := ended.inv.current (by simp [executing])
        simp [caller, runs, Lingers, phase, current]
      · simp [status, caller, Lingers, executing, clean, phase, current, still, Ne.symm caller]
    -- The thread changes from asleep for good to carcass, and lingers all along.
    | leaves asleep clean ends phase carcass =>
      simp [deletes, before, same ends, Lingers, asleep, clean, phase, carcass]
    -- The carcass is deleted, which is one deletion for a thread that was done.
    | resumes resuming ends current awake still =>
      rw [deletes, List.count_append, before]
      cases dead : sys.toBeDestroyed with
      | none => simp [same ends, Lingers, resuming, dead, awake, still]
      | some carcass =>
        by_cases it : carcass = thread
        · have done := ended.done thread (.inr (by rw [dead, it]))
          simp [same ends, done, Lingers, it, dead, awake, still]
        · simp [same ends, Lingers, resuming, it, dead, awake, still]
    -- Nothing ends and nothing is deleted.
    | goesOn other clean ends phase still =>
      have nothing : sys.deletes event next = [] := by
        unfold deletes
        split
        · exact absurd rfl other.2
        · rfl
      rw [nothing, List.append_nil, before]
      rcases phase with ⟨phase, current⟩ | ⟨first, second⟩
      · simp [same ends, Lingers, phase, current, clean, still]
      · simp [same ends, Lingers, first, second, clean, still]

/-- Along a run the threads that have finished go on to their deletion. -/
theorem ended_reached {initialValue : Nat → Int} {events : List ThreadEvent}
    {deleted : List ThreadNumber} (reached : replay (recording ThreadSystem.step deletes)
      (.start initialValue, []) events = some (sys, deleted)) : sys.Ended deleted := by
  have kept : ∀ (record : ThreadSystem × List ThreadNumber) event after,
      record.1.Ended record.2 → recording ThreadSystem.step deletes record event = some after →
      after.1.Ended after.2 := by
    intro record event after ended stepped
    obtain ⟨went, added⟩ := recording_some stepped
    rw [added]
    exact ended.step went
  exact replay_invariant kept (ended_start initialValue) reached

/-- A thread that has been switched away from is done, and another one is the current one. -/
theorem Ended.carcass {deleted : List ThreadNumber} (ended : sys.Ended deleted)
    (dead : sys.toBeDestroyed = some thread) :
    sys.phase = .resuming ∧ sys.status thread = .zommbie ∧ thread ≠ sys.currentThread := by
  have resuming : sys.phase = .resuming := by
    by_contra other
    simp [ended.inv.destroyed other] at dead
  have done := ended.done thread (.inr dead)
  refine ⟨resuming, done, ?_⟩
  rintro rfl
  have runs := ended.inv.current (by simp [resuming])
  simp [runs] at done

end ThreadSystem

/--
A thread that has finished is deleted once, and at the right time.

Between the switch away from it and its deletion no other step is possible: the thread that comes
back from `SWITCH`, or begins, deletes the carcass before it does anything else.
-/
theorem finished_deletedOnce (initialValue : Nat → Int) (events : List ThreadEvent)
    (sys : ThreadSystem) (deleted : List ThreadNumber)
    (reached : replay (recording ThreadSystem.step ThreadSystem.deletes)
      (.start initialValue, []) events = some (sys, deleted)) :
    (sys.phase = .sleeping true → sys.toBeDestroyed = none) ∧ sys.aborted = false ∧
    (∀ thread, deleted.count thread =
      if sys.status thread = .zommbie ∧ ¬ sys.Lingers thread then 1 else 0) ∧
    (sys.phase = .executing → ∀ thread, sys.status thread = .zommbie → deleted.count thread = 1) ∧
    (∀ event next, sys.step event = some next → sys.phase = .sleeping true →
      next.phase = .resuming → next.toBeDestroyed = some sys.currentThread) ∧
    (∀ thread, sys.toBeDestroyed = some thread → thread ≠ sys.currentThread ∧
      sys.step .resume = some sys.resume ∧
      (sys.resume = { sys.checkToBeDestroyed with phase := .executing } ∨
        ∃ semaphore, sys.resume = sys.checkToBeDestroyed.p semaphore) ∧
      ∀ event next, sys.step event = some next → event = .resume ∧
        sys.deletes event next = [thread]) ∧
    ∀ thread, sys.status thread = .zommbie → ∀ later after,
      replay ThreadSystem.step sys later = some after → after.phase = .resuming →
      after.currentThread ≠ thread := by
  -- Everything is read off what holds of the threads that have ended.
  have ended := ThreadSystem.ended_reached reached
  refine ⟨fun asleep => ended.inv.destroyed (by simp [asleep]), ended.inv.sound, ended.deletions,
    fun executing thread done => ?_, fun event next stepped asleep resuming => ?_,
    fun thread dead => ?_, fun thread done later after ran resuming same => ?_⟩
  · -- Whoever executes has cleaned up already.
    have clean := ended.inv.destroyed (by simp [executing])
    simp [ended.deletions, done, ThreadSystem.Lingers, executing, clean]
  · -- Only a dispatch leads from the loop of `Sleep` to a return from `SWITCH`.
    cases ended.inv.course stepped with
    | leaves _ _ _ _ carcass => exact carcass
    | finishes executing => simp [asleep] at executing
    | resumes before => simp [asleep] at before
    | goesOn _ _ _ phase =>
      -- An interrupt handler leaves the thread asleep.
      rcases phase with ⟨same, -⟩ | ⟨awake, -⟩
      · simp [same, asleep] at resuming
      · exact absurd asleep awake
  · -- With a carcass there is no step but the return from `SWITCH`, which deletes it.
    obtain ⟨resuming, -, other⟩ := ended.carcass dead
    refine ⟨other, by simp [ThreadSystem.step, ended.inv.sound, resuming], ?_, ?_⟩
    · -- The thread that returns goes on as it would without a carcass.
      rcases sys.resume_cases with ⟨-, result⟩ | ⟨semaphore, -, result⟩
      · exact .inl result
      · exact .inr ⟨semaphore, result⟩
    · -- And any step that is possible is this one.
      intro event next stepped
      cases ended.inv.course stepped with
      | resumes => exact ⟨rfl, by simp [ThreadSystem.deletes, dead]⟩
      | finishes _ clean => simp [clean] at dead
      | leaves _ clean => simp [clean] at dead
      | goesOn _ clean => simp [clean] at dead
  · -- Whoever is dispatched runs, and a thread that is done does not.
    have onward := ThreadSystem.Invariant.run later ended.inv ran
    have runs := onward.inv.current (by simp [resuming])
    simp [same, onward.done thread done] at runs

/-- A thread finishes while the main thread is ready, which deletes it when it comes back. -/
theorem finished_deletedOnce_one :
    ∃ sys, replay (recording ThreadSystem.step ThreadSystem.deletes) (.start fun _ => 0, [])
        [.createThread, .fork 1, .resume, .finish, .dispatch, .resume] = some (sys, [1]) ∧
      sys.currentThread = 0 ∧ [1].count 1 = 1 := by
  refine ⟨_, rfl, rfl, ?_⟩
  exact (finished_deletedOnce (fun _ => 0)
    [.createThread, .fork 1, .resume, .finish, .dispatch, .resume] _ _ rfl).2.2.2.1 rfl 1 rfl

end Nachos
