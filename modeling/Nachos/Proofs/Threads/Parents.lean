import Nachos.Proofs.Threads.Children
import Nachos.Proofs.Threads.Finish

/-! What the children of a thread leave in its lists when they finish. -/

namespace Nachos

namespace ThreadFamily

variable {sys next : ThreadFamily} {thread : ThreadNumber}

/-- What the control blocks say about a family agrees with the states of its threads. -/
structure Kin (sys : ThreadFamily) : Prop where
  num : sys.manager.Numbered
  created : sys.manager.created = sys.threads.created
  count : sys.manager.threadCnt = sys.threads.threadCnt
  ended : ∃ deleted, sys.threads.Ended deleted ∧
    ∀ thread, sys.manager.destroyed thread = true ↔ thread ∈ deleted
  -- A parent is older than its children, and stays until they have finished.
  older : ∀ parent child, sys.manager.parent child = some parent →
    parent < child ∧ child < sys.manager.created
  kept : ∀ parent child, sys.manager.parent child = some parent → sys.threads.Lingers child →
    sys.manager.Live parent
  active : ∀ parent child, child ∈ sys.manager.activeChild parent ↔
    sys.manager.parent child = some parent ∧ sys.threads.status child ≠ .zommbie
  once : ∀ parent, (sys.manager.activeChild parent).Nodup
  exited : ∀ parent child, child ∈ sys.manager.exitedChild parent ↔
    sys.manager.parent child = some parent ∧ sys.threads.status child = .zommbie

/-- The main thread has no parent and no children. -/
theorem kin_start (initialValue : Nat → Int) : (start initialValue).Kin := by
  -- Only the main thread is there, and it has neither parent nor children.
  have parents : ∀ thread, (start initialValue).manager.parent thread = none := by
    intro thread
    change Function.update (fun _ => none) 0 none thread = none
    by_cases main : thread = 0 <;> simp [main]
  have nobody : ∀ thread, (start initialValue).manager.activeChild thread = [] ∧
      (start initialValue).manager.exitedChild thread = [] := by
    intro thread
    change Function.update (fun _ => []) 0 [] thread = [] ∧ _
    change _ ∧ Function.update (fun _ => []) 0 [] thread = []
    by_cases main : thread = 0 <;> simp [main]
  -- The books are those of the constructor.
  refine ⟨ThreadManager.numbered_start, rfl, rfl, ⟨[], ThreadSystem.ended_start initialValue, ?_⟩,
    ?_, ?_, ?_, ?_, ?_⟩
  · intro thread
    simp [start, ThreadManager.start, ThreadManager.new, ThreadManager.newThread]
  all_goals simp [parents, nobody]

/-- A thread is deleted when it has finished, and something was executed after it. -/
theorem Kin.destroyed_iff (kin : sys.Kin) (thread : ThreadNumber) :
    sys.manager.destroyed thread = true ↔
      sys.threads.status thread = .zommbie ∧ ¬ sys.threads.Lingers thread := by
  obtain ⟨deleted, ended, listed⟩ := kin.ended
  rw [listed, ← List.count_pos_iff, ended.deletions]
  by_cases finished : sys.threads.status thread = .zommbie ∧ ¬ sys.threads.Lingers thread
  · simp [finished]
  · rw [if_neg finished]
    exact ⟨fun positive => absurd positive (Nat.lt_irrefl 0), fun both => absurd both finished⟩

/-- The states of the threads agree with the queues. -/
theorem Kin.inv (kin : sys.Kin) : sys.threads.Invariant := by
  obtain ⟨deleted, finished, -⟩ := kin.ended
  exact finished.inv

/-- Whoever executes has a control block. -/
theorem Kin.current (kin : sys.Kin) (awake : ∀ finishing, sys.threads.phase ≠ .sleeping finishing) :
    sys.manager.Live sys.threads.currentThread ∧
      sys.threads.status sys.threads.currentThread = .running := by
  have runs := kin.inv.current awake
  have used : sys.threads.status sys.threads.currentThread ≠ .justCreated := by simp [runs]
  have below := kin.inv.created_of_used used
  refine ⟨⟨kin.created ▸ below, ?_⟩, runs⟩
  have alive := (kin.destroyed_iff sys.threads.currentThread).not.mpr (by simp [runs])
  simpa using alive

/-- While a thread executes, whoever has finished is deleted. -/
theorem Kin.destroyed_of_executing (kin : sys.Kin) (executing : sys.threads.phase = .executing)
    (done : sys.threads.status thread = .zommbie) : sys.manager.destroyed thread = true := by
  have clean := kin.inv.destroyed (by simp [executing])
  simp [kin.destroyed_iff, done, ThreadSystem.Lingers, executing, clean]

/-- No pid leads to a child that has exited, so that its collection always fails. -/
theorem Kin.removeExitedChild (kin : sys.Kin) (executing : sys.threads.phase = .executing)
    (thread : ThreadNumber) (threadId : Int) :
    sys.manager.removeExitedChild thread threadId = none := by
  by_contra collected
  obtain ⟨⟨child, manager⟩, collected⟩ := Option.ne_none_iff_exists'.mp collected
  unfold ThreadManager.removeExitedChild at collected
  -- The collection goes through only if a thread with this pid is found.
  split at collected
  · obtain ⟨answer, found, collected⟩ := Option.bind_eq_some_iff.mp collected
    obtain ⟨child, rfl, collected⟩ := Option.bind_eq_some_iff.mp collected
    obtain ⟨same, collected, removal⟩ := Option.bind_eq_some_iff.mp collected
    cases collected
    obtain ⟨children, removed, -⟩ := Option.bind_eq_some_iff.mp removal
    -- The answer is in the list of the threads that there are, and so has not finished.
    have member : child ∈ sys.manager.threadList := by
      -- The search runs over the list of threads.
      obtain ⟨used, -, found⟩ := Option.bind_eq_some_iff.mp found
      split at found
      · exact List.mem_of_find?_eq_some (Option.some.inj found)
      · cases found
    have live := ((kin.num.listed child).mp member).2
    -- A child that has exited and was switched away from is not in that list any more.
    have absent : child ∉ sys.manager.exitedChild thread := by
      intro there
      have done := ((kin.exited thread child).mp there).2
      simp [kin.destroyed_of_executing executing done] at live
    simp [removeItem_absent absent] at removed
  · -- Without the pid nothing is collected.
    cases collected

/-- The manager once a child has told its parent that it has exited. -/
def childExited (manager : ThreadManager) (parent child : ThreadNumber) : ThreadManager :=
  { manager with
    activeChild := Function.update manager.activeChild parent
      ((manager.activeChild parent).erase child)
    exitedChild := Function.update manager.exitedChild parent
      (manager.exitedChild parent ++ [child]) }

/-- What a step does to the books of the thread manager. -/
inductive Manages (sys next : ThreadFamily) : FamilyEvent → Prop
  | creates {pid : Nat} (below : pid < threadCountMax)
    (free : sys.manager.threadMap.bit pid = false)
    (room : sys.manager.threadCnt + 1 < threadCountMax)
    (executing : sys.threads.phase = .executing)
    (manager : next.manager = sys.manager.added sys.threads.currentThread pid) :
    Manages sys next (.thread .createThread)
  | deletes {carcass : ThreadNumber} {pid : Nat} (dead : sys.threads.toBeDestroyed = some carcass)
    (member : carcass ∈ sys.manager.threadList) (number : sys.manager.pid carcass = pid)
    (manager : next.manager = sys.manager.removed carcass pid) :
    Manages sys next (.thread .resume)
  | exits {parent : ThreadNumber}
    (parent_eq : sys.manager.parent sys.threads.currentThread = some parent)
    (live : sys.manager.Live parent)
    (manager : next.manager = childExited sys.manager parent sys.threads.currentThread) :
    Manages sys next (.thread .finish)
  | keeps {event : ThreadEvent}
    (orphan : event = .finish → sys.manager.parent sys.threads.currentThread = none)
    (clean : event = .resume → sys.threads.toBeDestroyed = none)
    (full : event = .createThread → ¬ sys.manager.threadCnt + 1 < threadCountMax)
    (manager : next.manager = sys.manager) : Manages sys next (.thread event)

/-- Every step is a step of the threads, and changes the books in one of these ways. -/
theorem Kin.manages {event : FamilyEvent} (kin : sys.Kin) (stepped : sys.step event = some next) :
    sys.Manages next event ∧ ∃ inner, event = .thread inner ∧
      sys.threads.step inner = some next.threads := by
  cases event with
  | removeExitedChild threadId =>
    -- Nobody can collect anything.
    simp only [step] at stepped
    split at stepped
    · rename_i allowed
      simp [kin.removeExitedChild allowed.1] at stepped
    · cases stepped
  -- The threads and the manager take the same step.
  | thread event =>
    obtain ⟨threads, went, stepped⟩ := Option.bind_eq_some_iff.mp stepped
    obtain ⟨manager, managed, stepped⟩ := Option.bind_eq_some_iff.mp stepped
    cases stepped
    refine ⟨?_, event, rfl, went⟩
    -- By cases on the event: the end of a thread, a new one, and a return from `SWITCH`.
    unfold manage at managed
    split at managed
    · have executing : sys.threads.phase = .executing := by
        cases ThreadSystem.step_cases went with
        | creates executing => exact executing
        | wakes _ calls => simp at calls
      have live := (kin.current (by simp [executing])).1
      have member := (kin.num.listed _).mpr live
      -- With room for it the new thread gets a pid, and becomes a child of the caller.
      by_cases room : sys.manager.threadCnt + 1 < threadCountMax
      · obtain ⟨pid, below, free, made⟩ := kin.num.createThread member room
        rw [made] at managed
        cases managed
        exact .creates below free room executing rfl
      · rw [ThreadManager.createThread_full room] at managed
        cases managed
        exact .keeps (by simp) (by simp) (fun _ => room) rfl
    · have executing : sys.threads.phase = .executing := by
        cases ThreadSystem.step_cases went with
        | finishes executing => exact executing
        | wakes _ calls => simp at calls
      -- The end of a thread concerns its parent, if it has one.
      unfold ThreadManager.finish at managed
      split at managed
      · rename_i orphan
        cases managed
        exact .keeps (fun _ => orphan) (by simp) (by simp) rfl
      · -- The parent is told, and it has the child in its list.
        rename_i parent child
        have runs := (kin.current (by simp [executing])).2
        have active := (kin.active parent sys.threads.currentThread).mpr ⟨child, by simp [runs]⟩
        by_cases live : sys.manager.Live parent
        · have removed := removeItem_eq (kin.once parent) active
          simp only [ThreadManager.childThreadExit, if_pos live, removed, appendItem_eq] at managed
          cases managed
          exact .exits child live rfl
        · simp [ThreadManager.childThreadExit, live] at managed
    · -- After a `SWITCH` the carcass is deleted, if there is one.
      split at managed
      · rename_i carcass dead
        obtain ⟨deleted, ended, listed⟩ := kin.ended
        obtain ⟨resuming, done, other⟩ := ended.carcass dead
        -- It is still in the books, since it lingers.
        have alive : sys.manager.destroyed carcass = false := by
          have lingers : sys.threads.Lingers carcass := .inr dead
          have := (kin.destroyed_iff carcass).not.mpr (by simp [lingers])
          simpa using this
        have used : sys.threads.status carcass ≠ .justCreated := by simp [done]
        have below := kin.inv.created_of_used used
        have member := (kin.num.listed carcass).mpr ⟨kin.created ▸ below, alive⟩
        obtain ⟨pid, number, gone⟩ := kin.num.deleteThread member other
        rw [gone] at managed
        cases managed
        exact .deletes dead member number rfl
      · rename_i clean
        cases managed
        exact .keeps (by simp) (fun _ => clean) (by simp) rfl
    · -- Every other event leaves the books alone.
      cases managed
      exact .keeps (by simp_all) (by simp_all) (by simp_all) rfl

/-- A step makes one more thread or none, and counts what the thread manager counts. -/
theorem Kin.counts {event : FamilyEvent} (kin : sys.Kin) (stepped : sys.step event = some next) :
    next.manager.created = next.threads.created ∧
      next.manager.threadCnt = next.threads.threadCnt := by
  obtain ⟨manages, inner, rfl, went⟩ := kin.manages stepped
  have created := kin.created
  have count := kin.count
  have counts := kin.inv.counts went
  -- What the manager does and what the threads do has to be the same kind of step.
  cases manages with
  -- Both have made a thread, since both had room.
  | creates _ _ room _ manager =>
    rw [manager]
    cases counts with
    | creates _ made counted => exact ⟨by simp [ThreadManager.added, ThreadManager.newThread]; omega,
        by simp [ThreadManager.added, ThreadManager.newThread]; omega⟩
    | refuses full => exact absurd (count ▸ room) full
    | goesOn neither => exact absurd rfl neither.1
  -- Both have lost the carcass.
  | deletes dead _ _ manager =>
    rw [manager]
    cases counts with
    | resumes _ made counted =>
      simp only [ThreadSystem.checkToBeDestroyed, dead] at counted
      exact ⟨created.trans made.symm, by simp [ThreadManager.removed]; omega⟩
    | goesOn neither => exact absurd rfl neither.2
  -- A thread that finishes is counted until it is deleted.
  | exits _ _ manager =>
    rw [manager]
    cases counts with
    | goesOn _ made counted => exact ⟨created.trans made.symm, count.trans counted.symm⟩
  -- The books did not change, and the threads made or lost nobody.
  | keeps _ clean full manager =>
    rw [manager]
    cases counts with
    | creates room => exact absurd (count ▸ room) (full rfl)
    | refuses _ made counted => exact ⟨created.trans made.symm, count.trans counted.symm⟩
    | resumes _ made counted =>
      simp only [ThreadSystem.checkToBeDestroyed, clean rfl] at counted
      exact ⟨created.trans made.symm, count.trans counted.symm⟩
    | goesOn _ made counted => exact ⟨created.trans made.symm, count.trans counted.symm⟩

/-- A step deletes the carcass, if it returns from `SWITCH`, and nobody else. -/
theorem Manages.destroyed {event : ThreadEvent} (manages : sys.Manages next (.thread event))
    (thread : ThreadNumber) : next.manager.destroyed thread = true ↔
      sys.manager.destroyed thread = true ∨
        (event = .resume ∧ sys.threads.toBeDestroyed = some thread) := by
  -- The manager deletes the thread to be destroyed, and no other.
  cases manages with
  -- A new thread is not deleted.
  | creates _ _ _ _ manager =>
    rw [manager]
    simp [ThreadManager.added, ThreadManager.newThread]
  -- The carcass is deleted, and was the one to be destroyed.
  | @deletes carcass pid dead _ _ manager =>
    rw [manager, dead]
    by_cases it : thread = carcass
    · simp [ThreadManager.removed, it]
    · simp [ThreadManager.removed, it, Ne.symm it]
  -- A thread that finishes is not deleted yet.
  | exits _ _ manager =>
    rw [manager]
    simp [childExited]
  -- Nothing changes, and there was no carcass to delete.
  | keeps _ clean _ manager =>
    rw [manager]
    constructor
    · exact .inl
    · rintro (before | ⟨resume, dead⟩)
      · exact before
      · simp [clean resume] at dead

/-- A step that is not the end of a thread leaves the threads as they are: done, or not. -/
theorem Kin.done_iff (kin : sys.Kin) {event : ThreadEvent} (notFinish : event ≠ .finish)
    (went : sys.threads.step event = some next.threads) (thread : ThreadNumber) :
    next.threads.status thread = .zommbie ↔ sys.threads.status thread = .zommbie := by
  have onward := kin.inv.step went
  cases kin.inv.course went with
  | finishes => exact absurd rfl notFinish
  | leaves _ _ ends | resumes _ ends | goesOn _ _ ends => exact ⟨ends thread, onward.done thread⟩

/-- A control block stays, unless it is the carcass that is deleted. -/
theorem Manages.live {event : ThreadEvent} (manages : sys.Manages next (.thread event))
    (live : sys.manager.Live thread)
    (spared : event = .resume → sys.threads.toBeDestroyed ≠ some thread) :
    next.manager.Live thread := by
  refine ⟨?_, ?_⟩
  -- The threads made stay made, and this one is not the one that is deleted.
  · have below := live.1
    -- By cases on the step: the number made only grows.
    cases manages with
    | creates _ _ _ _ manager =>
      rw [manager]
      exact Nat.lt_succ_of_lt below
    | deletes _ _ _ manager | exits _ _ manager | keeps _ _ _ manager =>
      rw [manager]
      exact below
  · -- This thread is not the carcass, so it is not deleted either.
    have alive := (manages.destroyed thread).not.mpr (by
      rintro (before | ⟨resume, dead⟩)
      · simp [live.2] at before
      · exact spared resume dead)
    simpa using alive

/-- The books are in order after every step. -/
theorem Kin.numbered {event : FamilyEvent} (kin : sys.Kin) (manages : sys.Manages next event) :
    next.manager.Numbered := by
  have num := kin.num
  cases manages with
  | creates below free room _ manager => exact manager ▸ num.added below free room _
  | deletes _ member number manager => exact manager ▸ num.removed member number
  | exits _ _ manager =>
    rw [manager]
    exact ⟨num.listed, num.fresh, num.once, num.pids, num.used, num.count, num.counted, num.bound⟩
  | keeps _ _ _ manager => exact manager ▸ num

/-- A parent is older than its children, also than a new one. -/
theorem Kin.ages {event : FamilyEvent} (kin : sys.Kin) (manages : sys.Manages next event)
    {parent child : ThreadNumber} (related : next.manager.parent child = some parent) :
    parent < child ∧ child < next.manager.created := by
  cases manages with
  | creates _ _ _ executing manager =>
    rw [manager] at related ⊢
    simp only [ThreadManager.added, ThreadManager.newThread] at related ⊢
    -- The parent of a new thread is the current one, which is older.
    by_cases new : child = sys.manager.created
    · rw [new, Function.update_self, Option.some.injEq] at related
      have current := (kin.current (by simp [executing])).1.1
      rw [related] at current
      rw [new]
      exact ⟨current, Nat.lt_succ_self _⟩
    · -- The other threads have the parents that they had.
      rw [Function.update_of_ne new] at related
      have before := kin.older parent child related
      exact ⟨before.1, Nat.lt_succ_of_lt before.2⟩
  -- No other step changes who is whose parent.
  | deletes _ _ _ manager | exits _ _ manager | keeps _ _ _ manager =>
    rw [manager] at related ⊢
    exact kin.older parent child related

/-- A parent stays until its child has been switched away from. -/
theorem Kin.keeps {event : ThreadEvent} (kin : sys.Kin)
    (manages : sys.Manages next (.thread event))
    (went : sys.threads.step event = some next.threads) {parent child : ThreadNumber}
    (related : next.manager.parent child = some parent) (lingers : next.threads.Lingers child) :
    next.manager.Live parent := by
  -- But for the end of a thread, whoever lingers did so before.
  have still : event ≠ .finish → event ≠ .resume → sys.threads.Lingers child →
      next.manager.Live parent := by
    intro notFinish notResume before
    -- Whoever lingers keeps its parent, and the step does not delete it.
    refine manages.live (kin.kept parent child ?_ before) (fun resume => absurd resume notResume)
    cases manages with
    | creates _ _ _ executing manager =>
      -- A new thread has not finished.
      have clean := kin.inv.destroyed (by simp [executing])
      simp [ThreadSystem.Lingers, executing, clean] at before
    | deletes => exact absurd rfl notResume
    | exits => exact absurd rfl notFinish
    | keeps _ _ _ manager => exact manager ▸ related
  -- By cases on where the child is in its way out.
  cases kin.inv.course went with
  | finishes _ _ _ current _ clean =>
    -- The child is the caller of `Finish`, and its parent was just told.
    have caller : sys.threads.currentThread = child := by
      rcases lingers with ⟨-, same⟩ | dead
      · exact current.symm.trans same
      · simp [clean] at dead
    cases manages with
    | exits known live manager =>
      rw [manager] at related ⊢
      rw [caller] at known
      obtain rfl : _ = parent := Option.some.inj (known.symm.trans related)
      exact live
    -- A thread without a parent has none to keep.
    | keeps orphan _ _ manager =>
      rw [manager, ← caller, orphan rfl] at related
      cases related
  -- The child sleeps for good, and lingers since its end.
  | leaves asleep _ _ phase carcass =>
    refine still (by simp) (by simp) (.inl ⟨asleep, ?_⟩)
    rcases lingers with ⟨sleeping, -⟩ | dead
    · simp [phase] at sleeping
    · exact Option.some.inj (carcass.symm.trans dead)
  -- After the `SWITCH` nobody lingers any more.
  | resumes _ _ _ awake clean =>
    rcases lingers with ⟨sleeping, -⟩ | dead
    · exact absurd sleeping awake
    · simp [clean] at dead
  -- The child lingered before this step, and is where it was.
  | goesOn other _ _ phase clean =>
    rcases lingers with ⟨sleeping, same⟩ | dead
    · rcases phase with ⟨before, current⟩ | ⟨-, awake⟩
      · exact still other.1 other.2 (.inl ⟨before ▸ sleeping, current ▸ same⟩)
      · exact absurd sleeping awake
    · simp [clean] at dead

/-- A new thread is one of the active children of the current one. -/
theorem Kin.mem_added (kin : sys.Kin) (executing : sys.threads.phase = .executing) (pid : Nat)
    (parent child : ThreadNumber) :
    (child ∈ (sys.manager.added sys.threads.currentThread pid).activeChild parent ↔
      child ∈ sys.manager.activeChild parent ∨
        (child = sys.manager.created ∧ parent = sys.threads.currentThread)) ∧
    (child ∈ (sys.manager.added sys.threads.currentThread pid).exitedChild parent ↔
      child ∈ sys.manager.exitedChild parent) ∧
    ((sys.manager.added sys.threads.currentThread pid).activeChild parent).Nodup := by
  have current : sys.threads.currentThread ≠ sys.manager.created :=
    Nat.ne_of_lt (kin.current (by simp [executing])).1.1
  -- Nobody knows the new thread yet, and it has no children.
  have unknown : ∀ other, sys.manager.created ∉ sys.manager.activeChild other ∧
      sys.manager.created ∉ sys.manager.exitedChild other := by
    intro other
    rw [kin.active, kin.exited]
    refine ⟨fun both => ?_, fun both => ?_⟩
    all_goals exact Nat.lt_irrefl _ (kin.older other _ both.1).2
  have childless : ∀ other, other ∉ sys.manager.activeChild sys.manager.created ∧
      other ∉ sys.manager.exitedChild sys.manager.created := by
    intro other
    rw [kin.active, kin.exited]
    refine ⟨fun both => ?_, fun both => ?_⟩
    all_goals
      have age := kin.older _ other both.1
      exact Nat.lt_asymm age.1 age.2
  have once := kin.once parent
  simp only [ThreadManager.added, ThreadManager.newThread]
  -- The caller gets the new thread as its last active child.
  by_cases caller : parent = sys.threads.currentThread
  · simp only [caller, ne_eq, current, not_false_eq_true, Function.update_of_ne,
      Function.update_self, List.mem_append, List.mem_singleton, and_true, true_and]
    rw [← caller, List.nodup_append]
    refine ⟨once, List.nodup_singleton _, fun one member two same => ?_⟩
    rintro rfl
    exact (unknown parent).1 ((List.mem_singleton.mp same) ▸ member)
  · -- The new thread has no children, and the others have theirs.
    by_cases new : parent = sys.manager.created
    · simp [new, Ne.symm current, childless]
    · simp [caller, new, once]

/-- The lists of a thread are those of its children that have finished, and that have not. -/
def ListsAgree (sys : ThreadFamily) (parent child : ThreadNumber) : Prop :=
  (child ∈ sys.manager.activeChild parent ↔
    sys.manager.parent child = some parent ∧ sys.threads.status child ≠ .zommbie) ∧
  (child ∈ sys.manager.exitedChild parent ↔
    sys.manager.parent child = some parent ∧ sys.threads.status child = .zommbie) ∧
  (sys.manager.activeChild parent).Nodup

/-- The lists agree when a thread is made, which has not finished. -/
theorem Kin.lists_added (kin : sys.Kin) (executing : sys.threads.phase = .executing) {pid : Nat}
    (manager : next.manager = sys.manager.added sys.threads.currentThread pid)
    (done : ∀ thread, next.threads.status thread = .zommbie ↔ sys.threads.status thread = .zommbie)
    (parent child : ThreadNumber) : next.ListsAgree parent child := by
  -- The new thread has two places to be: the list of its parent, and no other.
  obtain ⟨active, gone, distinct⟩ := kin.mem_added executing pid parent child
  have new : sys.threads.status sys.manager.created ≠ .zommbie := by
    have fresh := kin.inv.fresh sys.manager.created (Nat.le_of_eq kin.created.symm)
    simp [(kin.inv.unforked _).mp fresh]
  unfold ListsAgree
  rw [manager, active, gone, ne_eq, done, kin.active, kin.exited]
  refine ⟨?_, ?_, distinct⟩
  -- The new child is active, and nobody else has changed lists.
  all_goals
    simp only [ThreadManager.added, ThreadManager.newThread]
    by_cases it : child = sys.manager.created
  · have orphan : sys.manager.parent sys.manager.created ≠ some parent :=
      fun related => Nat.lt_irrefl _ (kin.older parent _ related).2
    simp [it, orphan, new, eq_comm]
  · simp [it]
  · simp [it, new]
  · simp [it]

/-- The lists agree when the current thread has told its parent that it has exited. -/
theorem Kin.lists_exited (kin : sys.Kin) {its : ThreadNumber}
    (known : sys.manager.parent sys.threads.currentThread = some its)
    (executing : sys.threads.phase = .executing)
    (manager : next.manager = childExited sys.manager its sys.threads.currentThread)
    (status : next.threads.status =
      Function.update sys.threads.status sys.threads.currentThread .zommbie)
    (parent child : ThreadNumber) : next.ListsAgree parent child := by
  -- The child runs, so it is in the list of active children.
  have runs := (kin.current (by simp [executing])).2
  have once := kin.once parent
  have active := kin.active parent child
  have exited := kin.exited parent child
  unfold ListsAgree
  rw [manager, status]
  simp only [childExited]
  -- By cases on whose list it is, and on which child.
  by_cases mine : parent = its
  · subst mine
    by_cases caller : child = sys.threads.currentThread
    · subst caller
      simp [known, once.not_mem_erase, once.erase]
    · -- The other children of this parent stay where they were.
      simp [caller, once.mem_erase_iff, once.erase, active, exited]
  · by_cases caller : child = sys.threads.currentThread
    · -- The thread is nobody else's child.
      have other : its ≠ parent := Ne.symm mine
      subst caller
      simp [mine, known, other, active, exited, once]
    · -- Other parents keep their lists.
      simp [mine, caller, active, exited, once]

/-- The lists agree after every step. -/
theorem Kin.lists {event : ThreadEvent} (kin : sys.Kin)
    (manages : sys.Manages next (.thread event))
    (went : sys.threads.step event = some next.threads) (parent child : ThreadNumber) :
    next.ListsAgree parent child := by
  have before : sys.ListsAgree parent child :=
    ⟨kin.active parent child, kin.exited parent child, kin.once parent⟩
  unfold ListsAgree at before
  -- By cases on the step.
  cases manages with
  | creates _ _ _ executing manager =>
    exact kin.lists_added executing manager (kin.done_iff (by simp) went) parent child
  -- A thread that is deleted was done before, and no list changes.
  | deletes _ _ _ manager =>
    unfold ListsAgree
    rw [manager, ne_eq, kin.done_iff (by simp) went child]
    exact before
  -- The end of a thread that has a parent moves it from list to list.
  | exits known _ manager =>
    cases kin.inv.course went with
    | finishes executing _ status => exact kin.lists_exited known executing manager status parent child
    | goesOn other => exact absurd rfl other.1
  -- Nothing changes but perhaps the caller's own status.
  | keeps orphan _ _ manager =>
    unfold ListsAgree
    rw [manager, ne_eq]
    by_cases finish : event = .finish
    · subst finish
      cases kin.inv.course went with
      | finishes _ _ status =>
        rw [status]
        by_cases caller : child = sys.threads.currentThread
        · -- A thread without a parent is in no list.
          simp only [caller, orphan rfl, reduceCtorEq, false_and, iff_false] at before ⊢
          exact before
        · rw [Function.update_of_ne caller]
          exact before
      | goesOn other => exact absurd rfl other.1
    · -- No other step finishes a thread.
      rw [kin.done_iff finish went child]
      exact before

/-- Every step keeps what the control blocks say about the family. -/
theorem Kin.step {event : FamilyEvent} (kin : sys.Kin) (stepped : sys.step event = some next) :
    next.Kin := by
  obtain ⟨created, count⟩ := kin.counts stepped
  obtain ⟨manages, event, rfl, went⟩ := kin.manages stepped
  obtain ⟨deleted, ended, listed⟩ := kin.ended
  -- The lists agree, whatever the step was.
  have lists := kin.lists manages went
  refine ⟨kin.numbered manages, created, count,
    ⟨_, ended.step went, fun thread => ?_⟩, fun parent child => kin.ages manages,
    fun parent child => kin.keeps manages went, fun parent child => (lists parent child).1,
    fun parent => (lists parent parent).2.2, fun parent child => (lists parent child).2.1⟩
  -- The deleted threads are those of the run before, and the one of this step.
  rw [manages.destroyed, List.mem_append, listed]
  cases event with
  | resume => simp [ThreadSystem.deletes]
  | _ => simp [ThreadSystem.deletes]

/-- A call of `Finish` finds a parent that there is, and that knows the thread. -/
def FindsParent (sys : ThreadFamily) : FamilyEvent → Prop
  | .thread .finish => sys.threads.phase = .executing → ∀ parent,
      sys.manager.parent sys.threads.currentThread = some parent →
      sys.manager.Live parent ∧ sys.threads.currentThread ∈ sys.manager.activeChild parent
  | _ => True

/-- The lists of the threads that there are lead to threads that there are. -/
def NoDangling (sys : ThreadFamily) : Prop :=
  ∀ parent, sys.manager.Live parent → ∀ child,
    child ∈ sys.manager.activeChild parent ∨ child ∈ sys.manager.exitedChild parent →
    sys.manager.destroyed child = false

/-- The step touches no control block that is gone, and leaves no pointer to one. -/
def TouchesLiving (sys : ThreadFamily) (event : FamilyEvent) : Prop :=
  sys.FindsParent event ∧ ∀ next, sys.step event = some next → next.NoDangling

/--
No thread finishes whose parent has finished, and no thread is destroyed that has a parent.

The second half is about the return from `SWITCH` after the thread has finished.
-/
def LeavesNothing (sys : ThreadFamily) : FamilyEvent → Prop
  | .thread .finish => sys.threads.phase = .executing → ∀ parent,
      sys.manager.parent sys.threads.currentThread = some parent →
      sys.threads.status parent ≠ .zommbie
  | .thread .resume => ∀ carcass ∈ sys.threads.toBeDestroyed, sys.manager.parent carcass = none
  | _ => True

/-- A pointer dangles when a child is destroyed before its parent. -/
theorem Kin.noDangling_iff (kin : sys.Kin) : sys.NoDangling ↔ ∀ parent child,
    sys.manager.parent child = some parent → sys.manager.destroyed child = true →
      sys.manager.destroyed parent = true := by
  constructor
  -- A child that was deleted had finished, so that it is in the list of a parent that lives.
  · intro sound parent child related gone
    by_contra stays
    have ages := kin.older parent child related
    have live : sys.manager.Live parent := ⟨Nat.lt_trans ages.1 ages.2, by simpa using stays⟩
    have done := ((kin.destroyed_iff child).mp gone).1
    have held := sound parent live child (.inr ((kin.exited parent child).mpr ⟨related, done⟩))
    simp [held] at gone
  · -- Conversely, a child in a list that was destroyed would take its parent with it.
    intro ordered parent live child listed
    have related : sys.manager.parent child = some parent := by
      rcases listed with active | exited
      · exact ((kin.active parent child).mp active).1
      · exact ((kin.exited parent child).mp exited).1
    by_contra gone
    have also := ordered parent child related (by simpa using gone)
    simp [live.2] at also

/-- A step that leaves nothing behind keeps the lists as they should be. -/
theorem Kin.noDangling (kin : sys.Kin) (sound : sys.NoDangling) {event : FamilyEvent}
    (leaves : sys.LeavesNothing event) (stepped : sys.step event = some next) :
    next.NoDangling := by
  -- Whether a pointer dangles is said by who is destroyed.
  obtain ⟨manages, event, rfl, -⟩ := kin.manages stepped
  rw [(kin.step stepped).noDangling_iff]
  intro parent child related gone
  rcases (manages.destroyed child).mp gone with before | ⟨rfl, dead⟩
  · -- The child was destroyed before, and so was its parent.
    have old : child ≠ sys.manager.created := by
      rintro rfl
      simp [kin.num.fresh _ (Nat.le_refl _)] at before
    have known : sys.manager.parent child = some parent := by
      -- The child has the parent that it had, since it is not the new one.
      cases manages with
      | creates _ _ _ _ manager =>
        rw [manager] at related
        simpa [ThreadManager.added, ThreadManager.newThread, old] using related
      | deletes _ _ _ manager | exits _ _ manager | keeps _ _ _ manager =>
        rw [manager] at related
        exact related
    exact (manages.destroyed parent).mpr (.inl (kin.noDangling_iff.mp sound parent child known before))
  · -- The carcass has no parent.
    have orphan := leaves child dead
    have same : next.manager.parent child = sys.manager.parent child := by
      cases manages with
      | deletes _ _ _ manager => rw [manager, ThreadManager.removed]
      | keeps _ _ _ manager => rw [manager]
    rw [same, orphan] at related
    cases related

/-- A step touches only what there is if it leaves nothing behind. -/
theorem Kin.touches (kin : sys.Kin) (sound : sys.NoDangling) {event : FamilyEvent}
    (leaves : sys.LeavesNothing event) : sys.TouchesLiving event := by
  refine ⟨?_, fun next stepped => kin.noDangling sound leaves stepped⟩
  -- By cases on the event: an end of a thread, a return from `SWITCH`, or neither.
  unfold FindsParent
  split
  · intro executing parent related
    -- The parent is still there, and has the child among the active ones.
    have ages := kin.older parent _ related
    have runs := (kin.current (by simp [executing])).2
    have stays := (kin.destroyed_iff parent).not.mpr (by simp [leaves executing parent related])
    refine ⟨⟨Nat.lt_trans ages.1 ages.2, by simpa using stays⟩, ?_⟩
    exact (kin.active parent _).mpr ⟨related, by simp [runs]⟩
  · trivial

/-- A step leaves nothing behind if it touches only what there is. -/
theorem Kin.leaves (kin : sys.Kin) {event : FamilyEvent} (touches : sys.TouchesLiving event) :
    sys.LeavesNothing event := by
  obtain ⟨finds, sound⟩ := touches
  unfold LeavesNothing
  split
  · -- The parent that finishes first would be touched after it is destroyed.
    intro executing parent related done
    have stays := (finds executing parent related).1.2
    simp [kin.destroyed_of_executing executing done] at stays
  · -- The carcass has no parent, or its pointer would dangle.
    intro carcass dead
    have dead : sys.threads.toBeDestroyed = some carcass := dead
    obtain ⟨deleted, ended, -⟩ := kin.ended
    obtain ⟨resuming, -, -⟩ := ended.carcass dead
    by_contra child
    obtain ⟨parent, related⟩ := Option.ne_none_iff_exists'.mp child
    -- The carcass can be deleted, and its parent has it in a list.
    have live := kin.kept parent carcass related (.inr dead)
    have lingers : sys.threads.Lingers carcass := .inr dead
    have alive := (kin.destroyed_iff carcass).not.mpr (by simp [lingers])
    have member := (kin.num.listed carcass).mpr
      ⟨(kin.older parent carcass related).2, by simpa using alive⟩
    obtain ⟨pid, number, gone⟩ := kin.num.deleteThread member (ended.carcass dead).2.2
    -- The deletion goes through.
    have stepped : sys.step (.thread .resume) =
        some ⟨sys.threads.resume, sys.manager.removed carcass pid⟩ := by
      simp [ThreadFamily.step, ThreadSystem.step, ended.inv.sound, resuming, manage, dead, gone]
    have after := kin.step stepped
    have destroyed : (sys.manager.removed carcass pid).destroyed parent = true :=
      after.noDangling_iff.mp (sound _ stepped) parent carcass related
        (by simp [ThreadManager.removed])
    have older : parent ≠ carcass := Nat.ne_of_lt (kin.older parent carcass related).1
    simp [ThreadManager.removed, older, live.2] at destroyed
  · trivial

/-- The control blocks agree with the states of the threads in every run. -/
theorem kin_reached {initialValue : Nat → Int} {events : List FamilyEvent}
    (reached : replay ThreadFamily.step (.start initialValue) events = some sys) : sys.Kin :=
  replay_invariant (fun _ _ _ kin stepped => kin.step stepped) (kin_start initialValue) reached

/-- The current thread collects a child by its pid: the child is returned, and off the list. -/
def Collects (sys : ThreadFamily) (child : ThreadNumber) : Prop :=
  ∃ manager, sys.manager.removeExitedChild sys.threads.currentThread (sys.manager.pid child) =
      some (child, manager) ∧
    manager.exitedChild sys.threads.currentThread =
      (sys.manager.exitedChild sys.threads.currentThread).erase child

end ThreadFamily

/--
A thread that finishes touches no control block that is gone, and leaves no pointer to one, exactly
in the runs in which no thread finishes whose parent has finished, and no thread is destroyed that
has a parent.
-/
theorem finish_touchesLiving_iff (initialValue : Nat → Int) (events : List FamilyEvent) :
    EveryStep ThreadFamily.step ThreadFamily.TouchesLiving (.start initialValue) events ↔
      EveryStep ThreadFamily.step ThreadFamily.LeavesNothing (.start initialValue) events := by
  -- The books hold at the start, and all along the run.
  have begun := ThreadFamily.kin_start initialValue
  constructor
  · exact EveryStep.of_invariant (fun _ _ _ kin _ stepped => kin.step stepped)
      (fun _ _ kin touches => kin.leaves touches) begun
  · -- Nothing dangles at the start, where no thread is destroyed.
    have sound : (ThreadFamily.start initialValue).NoDangling := fun _ _ _ _ => rfl
    have kept : ∀ (sys : ThreadFamily) event next, sys.Kin ∧ sys.NoDangling →
        sys.LeavesNothing event → sys.step event = some next → next.Kin ∧ next.NoDangling :=
      fun sys event next both leaves stepped =>
        ⟨both.1.step stepped, both.1.noDangling both.2 leaves stepped⟩
    exact EveryStep.of_invariant kept (fun _ _ both leaves => both.1.touches both.2 leaves)
      ⟨begun, sound⟩

/-- The main thread makes a thread that finishes, and is destroyed. -/
def oneChild : List FamilyEvent :=
  [.thread .createThread, .thread (.fork 1), .thread .resume, .thread .finish, .thread .dispatch,
    .thread .resume]

/-- That thread makes another one first, which runs on when the first has been destroyed. -/
def oneGrandchild : List FamilyEvent :=
  [.thread .createThread, .thread (.fork 1), .thread .resume, .thread .createThread,
    .thread (.fork 2), .thread .resume, .thread .yield, .thread .resume, .thread .yield,
    .thread .resume, .thread .finish, .thread .dispatch, .thread .resume, .thread .yield,
    .thread .resume]

/--
A child that finishes is destroyed, and stays in the list of its parent.

Where the parent finishes first, it is destroyed first, and the child still means to tell it.
-/
theorem finish_touchesDestroyed :
    ¬ EveryStep ThreadFamily.step ThreadFamily.TouchesLiving (.start fun _ => 0) oneChild ∧
    ¬ EveryStep ThreadFamily.step ThreadFamily.FindsParent (.start fun _ => 0)
      (oneGrandchild ++ [.thread .finish]) := by
  constructor
  -- The child is gone, and still in the list of its parent.
  · intro every
    have evaluated : (replay ThreadFamily.step (.start fun _ => 0) oneChild.dropLast).bind
        (fun sys => (sys.step (.thread .resume)).map fun next =>
          (decide (next.manager.Live 0), next.manager.exitedChild 0, next.manager.destroyed 1)) =
      some (true, [1], true) := by decide +kernel
    -- The values of the run, one by one.
    obtain ⟨sys, ran, evaluated⟩ := Option.bind_eq_some_iff.mp evaluated
    obtain ⟨next, stepped, values⟩ := Option.map_eq_some_iff.mp evaluated
    simp only [Prod.mk.injEq, decide_eq_true_eq] at values
    obtain ⟨live, exited, gone⟩ := values
    have touches : sys.TouchesLiving (.thread .resume) :=
      EveryStep.after (show EveryStep _ _ _ (oneChild.dropLast ++ [.thread .resume]) from every) ran
    have stays := touches.2 next stepped 0 live 1 (.inr (by simp [exited]))
    simp [stays] at gone
  -- The parent is gone when its child looks for it.
  · intro every
    have evaluated : (replay ThreadFamily.step (.start fun _ => 0) oneGrandchild).map (fun sys =>
        (sys.threads.phase, sys.manager.parent sys.threads.currentThread,
          sys.manager.destroyed 1)) = some (.executing, some 1, true) := by decide +kernel
    -- The values of the run, one by one.
    obtain ⟨sys, ran, values⟩ := Option.map_eq_some_iff.mp evaluated
    simp only [Prod.mk.injEq] at values
    obtain ⟨executing, related, gone⟩ := values
    have stays := (every.after ran executing 1 related).1.2
    simp [stays] at gone

/--
A child that has exited is never collected.

By the time that the parent runs again the child is destroyed, and its pid leads nowhere, or to a
thread that has not finished. So the removal from the list of the exited children finds nothing.
-/
theorem exitedChild_uncollectable (initialValue : Nat → Int) (events : List FamilyEvent)
    (sys : ThreadFamily)
    (reached : replay ThreadFamily.step (.start initialValue) events = some sys)
    (executing : sys.threads.phase = .executing) (child : ThreadNumber)
    (related : sys.manager.parent child = some sys.threads.currentThread)
    (done : sys.threads.status child = .zommbie) :
    child ∈ sys.manager.exitedChild sys.threads.currentThread ∧ ¬ sys.Collects child := by
  have kin := ThreadFamily.kin_reached reached
  refine ⟨(kin.exited _ child).mpr ⟨related, done⟩, ?_⟩
  rintro ⟨manager, collected, -⟩
  simp [kin.removeExitedChild executing] at collected

/-- The main thread fails to collect its child, also when the pid belongs to another thread. -/
theorem exitedChild_lost :
    ∃ sys next, replay ThreadFamily.step (.start fun _ => 0) oneChild = some sys ∧
      sys.manager.exitedChild sys.threads.currentThread = [1] ∧ ¬ sys.Collects 1 ∧
      sys.step (.thread .createThread) = some next ∧ next.manager.pid 2 = next.manager.pid 1 ∧
      next.manager.exitedChild next.threads.currentThread = [1] ∧ ¬ next.Collects 1 := by
  -- The whole run is evaluated once, and its values are read off.
  have evaluated : (replay ThreadFamily.step (.start fun _ => 0) oneChild).bind (fun sys =>
      (sys.step (.thread .createThread)).map fun next =>
        ((sys.manager.exitedChild sys.threads.currentThread,
          (sys.manager.removeExitedChild sys.threads.currentThread (sys.manager.pid 1)).isSome),
        (decide (next.manager.pid 2 = next.manager.pid 1),
          next.manager.exitedChild next.threads.currentThread,
          (next.manager.removeExitedChild next.threads.currentThread (next.manager.pid 1)).isSome))) =
    some (([1], false), (true, [1], false)) := by decide +kernel
  obtain ⟨sys, ran, evaluated⟩ := Option.bind_eq_some_iff.mp evaluated
  obtain ⟨next, stepped, values⟩ := Option.map_eq_some_iff.mp evaluated
  simp only [Prod.mk.injEq, decide_eq_true_eq] at values
  obtain ⟨⟨exited, fails⟩, same, still, failsAgain⟩ := values
  refine ⟨sys, next, ran, exited, ?_, stepped, same, still, ?_⟩
  -- The search is by process number, which nobody has, or somebody else.
  · rintro ⟨manager, collected, -⟩
    simp [collected] at fails
  · rintro ⟨manager, collected, -⟩
    simp [collected] at failsAgain

/-- The main thread runs again after its child has finished. -/
theorem exitedChild_uncollectable_one :
    ∃ sys, replay ThreadFamily.step (.start fun _ => 0) oneChild = some sys ∧
      1 ∈ sys.manager.exitedChild sys.threads.currentThread ∧ ¬ sys.Collects 1 := by
  have evaluated : (replay ThreadFamily.step (.start fun _ => 0) oneChild).map (fun sys =>
      (sys.threads.phase, decide (sys.manager.parent 1 = some sys.threads.currentThread),
        sys.threads.status 1)) = some (.executing, true, .zommbie) := by decide +kernel
  obtain ⟨sys, ran, values⟩ := Option.map_eq_some_iff.mp evaluated
  simp only [Prod.mk.injEq, decide_eq_true_eq] at values
  obtain ⟨executing, related, done⟩ := values
  exact ⟨sys, ran, exitedChild_uncollectable (fun _ => 0) oneChild sys ran executing 1 related done⟩

end Nachos
