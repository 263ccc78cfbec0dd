import Nachos.Proofs.Lib.Bitmap
import Nachos.Proofs.Lib.List
import Nachos.Theory.Run
import Nachos.Threads.Children

/-! The counter, the list and the bitmap of the thread manager describe the same threads. -/

namespace Nachos

/-- Each of these threads has a pid of its own, which is in use. -/
structure Pids (threadMap : Bitmap) (live : ThreadNumber → Prop) (pid : ThreadNumber → Int) :
    Prop where
  size : threadMap.numBits = threadCountMax
  numbered : ∀ thread, live thread → ∃ i : Nat,
    pid thread = i ∧ i < threadCountMax ∧ threadMap.bit i = true
  apart : ∀ thread other, live thread → live other → pid thread = pid other → thread = other

section Pids

variable {threadMap : Bitmap} {live after : ThreadNumber → Prop} {pid : ThreadNumber → Int}
  {i : Nat}

/-- A new thread gets a pid that nobody has. -/
theorem Pids.takes (pids : Pids threadMap live pid) (below : i < threadCountMax)
    (free : threadMap.bit i = false) {new : ThreadNumber}
    (known : ∀ thread, after thread → thread ≠ new → live thread) :
    Pids (threadMap.setBit i) after (Function.update pid new i) := by
  have inRange : i < threadMap.numBits := pids.size ▸ below
  -- The pid was free, so no thread from before has it.
  have fresh : ∀ thread, after thread → thread ≠ new → pid thread ≠ i := by
    intro thread still other same
    obtain ⟨j, number, -, used⟩ := pids.numbered thread (known thread still other)
    have : j = i := by omega
    simp [this, free] at used
  refine ⟨pids.size, fun thread still => ?_, fun thread other still also same => ?_⟩
  · -- The new thread has the new pid, and the others have theirs.
    by_cases new? : thread = new
    · exact ⟨i, by simp [new?], below, by simp [inRange]⟩
    · obtain ⟨j, number, small, used⟩ := pids.numbered thread (known thread still new?)
      exact ⟨j, by simp [new?, number], small, by simp [inRange, used]⟩
  · -- Two threads with one pid: neither is the new one without the other.
    by_cases first : thread = new
    · by_cases second : other = new
      · rw [first, second]
      · have := fresh other also second
        simp [first, second, this.symm] at same
    · by_cases second : other = new
      · have := fresh thread still first
        simp [first, second, this] at same
      · simp only [ne_eq, first, not_false_eq_true, Function.update_of_ne, second] at same
        exact pids.apart thread other (known thread still first) (known other also second) same

/-- The pid of a thread that is gone is free again. -/
theorem Pids.frees (pids : Pids threadMap live pid) {gone : ThreadNumber} (lived : live gone)
    (number : pid gone = i) (known : ∀ thread, after thread → live thread ∧ thread ≠ gone) :
    Pids (threadMap.clearBit i) after pid := by
  -- The pid of the thread that is gone was in use.
  obtain ⟨j, its, small, -⟩ := pids.numbered gone lived
  have inRange : i < threadMap.numBits := by
    have size := pids.size
    omega
  refine ⟨pids.size, fun thread still => ?_, fun thread other still also => ?_⟩
  · -- Whoever is left has another pid, which is still in use.
    obtain ⟨before, other⟩ := known thread still
    obtain ⟨j, its, small, used⟩ := pids.numbered thread before
    have different : j ≠ i := by
      intro same
      exact other (pids.apart thread gone before lived (by omega))
    exact ⟨j, its, small, by simp [inRange, different, used]⟩
  · -- Whoever is left was there before.
    exact pids.apart thread other (known thread still).1 (known other also).1

end Pids

namespace ThreadManager

variable {manager next : ThreadManager} {thread : ThreadNumber}

/-- What the thread manager has in its books agrees. -/
structure Numbered (manager : ThreadManager) : Prop where
  listed : ∀ thread, thread ∈ manager.threadList ↔ manager.Live thread
  fresh : ∀ thread, manager.created ≤ thread → manager.destroyed thread = false
  once : manager.threadList.Nodup
  pids : Pids manager.threadMap (· ∈ manager.threadList) manager.pid
  used : ∀ i < threadCountMax, manager.threadMap.bit i = true →
    ∃ thread ∈ manager.threadList, manager.pid thread = i
  count : manager.threadCnt = manager.threadList.length
  counted : manager.threadCnt + manager.threadMap.numClear = threadCountMax
  bound : manager.threadCnt < threadCountMax

/-- The thread manager starts with the main thread in its books. -/
theorem numbered_start : start.Numbered := by
  have inRange : 0 < (Bitmap.new threadCountMax).numBits := by simp
  have map : start.threadMap = (Bitmap.new threadCountMax).setBit 0 := rfl
  have numbers : start.pid 0 = 0 := rfl
  have threadCnt : start.threadCnt = 1 := rfl
  have threads : ∀ thread, thread ∈ start.threadList ↔ thread = 0 := by simp [start, newThread]
  -- The main thread is the only one, and it has number 0.
  refine ⟨fun thread => ?_, fun _ _ => rfl, List.nodup_singleton 0, ⟨rfl, ?_, ?_⟩, ?_, rfl, ?_,
    by decide⟩
  · -- The list has the main thread, and no other.
    rw [threads]
    exact ⟨fun main => main ▸ ⟨Nat.zero_lt_one, rfl⟩, fun live => Nat.lt_one_iff.mp live.1⟩
  · -- Its number is 0, which is in use.
    intro thread member
    refine ⟨0, ?_, by decide, ?_⟩
    · rw [(threads thread).mp member, numbers]
      rfl
    · rw [map, Bitmap.bit_setBit _ inRange]
      rfl
  · -- There are no two threads.
    intro thread other member also _
    rw [(threads thread).mp member, (threads other).mp also]
  · -- No other number is in use.
    intro i _ used
    refine ⟨0, by simp [threads], ?_⟩
    rw [map, Bitmap.bit_setBit _ inRange, Bitmap.bit_new] at used
    have first : i = 0 := by simpa using used
    simp [numbers, first]
  · -- One number of all is taken.
    have one := Bitmap.numClear_setBit _ inRange (Bitmap.bit_new threadCountMax 0)
    rw [Bitmap.numClear_new] at one
    rw [threadCnt, map]
    omega

/-- The manager once it has made another thread. -/
def added (manager : ThreadManager) (currentThread : ThreadNumber) (pid : Nat) : ThreadManager :=
  let made := { manager with
    threadCnt := manager.threadCnt + 1
    threadMap := manager.threadMap.setBit pid
    threadList := manager.threadList ++ [manager.created] }.newThread (some currentThread) pid
  { made with
    activeChild := Function.update made.activeChild currentThread
      (made.activeChild currentThread ++ [manager.created]) }

/-- A thread whose control block there is gets the child as its last one. -/
theorem addChild_of_live {child : ThreadNumber} (live : manager.Live thread) :
    manager.addChild thread child = some { manager with
      activeChild := Function.update manager.activeChild thread
        (manager.activeChild thread ++ [child]) } := by
  unfold addChild
  rw [if_pos live, appendItem_eq]
  rfl

/-- A new thread gets a free pid, and is a child of the current one. -/
theorem Numbered.createThread (num : manager.Numbered) (current : thread ∈ manager.threadList)
    (room : manager.threadCnt + 1 < threadCountMax) :
    ∃ pid < threadCountMax, manager.threadMap.bit pid = false ∧
      manager.createThread (some thread) = some (some manager.created, manager.added thread pid) := by
  -- There is room, so some number is clear.
  have counted := num.counted
  have live := (num.listed thread).mp current
  obtain ⟨pid, found, takes⟩ := manager.threadMap.findAndSet_takes (by omega)
  obtain ⟨inRange, free⟩ := takes.clear pid List.mem_cons_self
  refine ⟨pid, num.pids.size ▸ inRange, free, ?_⟩
  -- There is the current thread already, which the new one is a child of.
  have others : 0 < manager.threadCnt := by
    rw [num.count]
    exact List.length_pos_of_mem current
  have several : manager.threadCnt + 1 > 1 := by omega
  have live : ({ manager with
      threadCnt := manager.threadCnt + 1
      threadMap := manager.threadMap.setBit pid }.newThread (some thread) pid).Live thread :=
    ⟨Nat.lt_succ_of_lt live.1, live.2⟩
  -- The test on the count holds, and the parent is there to have a child.
  unfold ThreadManager.createThread
  rw [if_pos room, found]
  simp only [Option.bind_eq_bind, Option.bind_some, addChild_of_live live, appendItem_eq]
  exact if_pos several

/-- With as many threads as there may be, no other one is made. -/
theorem createThread_full (full : ¬ manager.threadCnt + 1 < threadCountMax)
    (currentThread : Option ThreadNumber) :
    manager.createThread currentThread = some (none, manager) := by
  simp [createThread, full]

/-- A new thread is in the books like the others. -/
theorem Numbered.added (num : manager.Numbered) {pid : Nat} (below : pid < threadCountMax)
    (free : manager.threadMap.bit pid = false)
    (room : manager.threadCnt + 1 < threadCountMax) (current : ThreadNumber) :
    (manager.added current pid).Numbered := by
  have inRange : pid < manager.threadMap.numBits := num.pids.size ▸ below
  -- The thread that is added has a number of its own, and so is not listed yet.
  have new : manager.created ∉ manager.threadList := by
    intro member
    exact Nat.lt_irrefl _ ((num.listed _).mp member).1
  have one := Bitmap.numClear_setBit _ inRange free
  have counted := num.counted
  have known : ∀ thread ∈ manager.threadList, manager.pid thread =
      Function.update manager.pid manager.created pid thread := by
    intro thread member
    have different : thread ≠ manager.created := fun same => new (same ▸ member)
    simp [different]
  refine ⟨fun thread => ?_, fun thread far => num.fresh thread (Nat.le_of_succ_le far), ?_, ?_,
    fun i small used => ?_, ?_, ?_, room⟩
  · -- The new thread is live, and it is the one with the last number.
    change thread ∈ manager.threadList ++ [manager.created] ↔
      thread < manager.created + 1 ∧ manager.destroyed thread = false
    rw [List.mem_append, num.listed, List.mem_singleton]
    constructor
    · rintro (live | rfl)
      · exact ⟨Nat.lt_succ_of_lt live.1, live.2⟩
      · exact ⟨Nat.lt_succ_self _, num.fresh _ (Nat.le_refl _)⟩
    · intro live
      rcases Nat.lt_succ_iff_lt_or_eq.mp live.1 with before | same
      · exact .inl ⟨before, live.2⟩
      · exact .inr same
  · -- It was not in the list.
    change (manager.threadList ++ [manager.created]).Nodup
    have different : ∀ thread ∈ manager.threadList, thread ≠ manager.created :=
      fun thread member same => new (same ▸ member)
    simpa [List.nodup_append, num.once] using different
  · -- It has the number that was clear.
    refine num.pids.takes below free fun thread member different => ?_
    have members : thread ∈ manager.threadList ++ [manager.created] := member
    simpa [different] using members
  · -- Every number in use is somebody's.
    change ∃ thread ∈ manager.threadList ++ [manager.created],
      Function.update manager.pid manager.created pid thread = i
    change (manager.threadMap.setBit pid).bit i = true at used
    rw [Bitmap.bit_setBit _ inRange] at used
    -- A number in use is the new thread's, or that of a thread listed before.
    by_cases taken : i = pid
    · exact ⟨manager.created, by simp, by simp [taken]⟩
    · have used : manager.threadMap.bit i = true := by simpa [taken] using used
      obtain ⟨thread, member, number⟩ := num.used i small used
      exact ⟨thread, by simp [member], (known thread member).symm.trans number⟩
  · -- One thread more is counted, and one number less is clear.
    change manager.threadCnt + 1 = (manager.threadList ++ [manager.created]).length
    simp [num.count]
  · change manager.threadCnt + 1 + (manager.threadMap.setBit pid).numClear = threadCountMax
    omega

/-- The manager once it has deleted a thread. -/
def removed (manager : ThreadManager) (thread : ThreadNumber) (pid : Nat) : ThreadManager :=
  { manager with
    threadCnt := manager.threadCnt - 1
    threadMap := manager.threadMap.clearBit pid
    threadList := manager.threadList.erase thread
    destroyed := Function.update manager.destroyed thread true }

/-- A thread that is not the current one can be deleted. -/
theorem Numbered.deleteThread (num : manager.Numbered) (member : thread ∈ manager.threadList)
    {current : ThreadNumber} (other : thread ≠ current) :
    ∃ pid : Nat, manager.pid thread = pid ∧
      manager.deleteThread current thread = some (manager.removed thread pid) := by
  obtain ⟨pid, number, below, -⟩ := num.pids.numbered thread member
  have live := (num.listed thread).mp member
  have cleared := manager.threadMap.clear_inRange (num.pids.size ▸ below)
  refine ⟨pid, number, ?_⟩
  simp [ThreadManager.deleteThread, live.1, live.2, number, cleared,
    removeItem_eq num.once member, other, removed]

/-- The threads that are left are in the books as before. -/
theorem Numbered.removed (num : manager.Numbered) (member : thread ∈ manager.threadList)
    {pid : Nat} (number : manager.pid thread = pid) : (manager.removed thread pid).Numbered := by
  -- The thread that goes has a number of its own.
  obtain ⟨j, its, below, used⟩ := num.pids.numbered thread member
  obtain rfl : j = pid := by omega
  have inRange : j < manager.threadMap.numBits := num.pids.size ▸ below
  have one := Bitmap.numClear_clearBit _ inRange used
  have counted := num.counted
  have positive : 0 < manager.threadCnt := by
    rw [num.count]
    exact List.length_pos_of_mem member
  -- A thread is listed once, and so not at all after it has been erased.
  have left : ∀ other, other ∈ manager.threadList.erase thread ↔
      other ≠ thread ∧ other ∈ manager.threadList := fun other => num.once.mem_erase_iff
  refine ⟨fun other => ?_, fun other far => ?_, num.once.erase thread, ?_, fun i small used => ?_,
    ?_, ?_, ?_⟩
  · -- It is not live any more, and the others are.
    change other ∈ manager.threadList.erase thread ↔
      other < manager.created ∧ Function.update manager.destroyed thread true other = false
    rw [left, num.listed]
    by_cases same : other = thread
    · simp [same]
    · simp [same]
  · -- Threads that are not made yet are not this one.
    have different : other ≠ thread := by
      have before := ((num.listed thread).mp member).1
      exact Nat.ne_of_gt (Nat.lt_of_lt_of_le before far)
    change Function.update manager.destroyed thread true other = false
    simp [different, num.fresh other far]
  · -- The numbers of the others stay in use.
    refine num.pids.frees member number fun other still => ?_
    exact ((left other).mp still).symm
  · -- A number that is still in use is not that of the thread that went.
    change ∃ other ∈ manager.threadList.erase thread, manager.pid other = i
    change (manager.threadMap.clearBit j).bit i = true at used
    rw [Bitmap.bit_clearBit _ inRange] at used
    obtain ⟨different, taken⟩ : i ≠ j ∧ manager.threadMap.bit i = true := by simpa using used
    obtain ⟨other, also, number⟩ := num.used i small taken
    refine ⟨other, (left other).mpr ⟨fun same => different ?_, also⟩, number⟩
    rw [same] at number
    omega
  · -- One thread less is counted, and one number more is clear.
    change manager.threadCnt - 1 = (manager.threadList.erase thread).length
    rw [List.length_erase_of_mem member, num.count]
  · change manager.threadCnt - 1 + (manager.threadMap.clearBit j).numClear = threadCountMax
    omega
  · have bound := num.bound
    change manager.threadCnt - 1 < threadCountMax
    omega

/-- A pid leads to the thread that has it. -/
theorem Numbered.getThreadPtr (num : manager.Numbered) {i : Nat} (below : i < threadCountMax) :
    ∃ answer, manager.getThreadPtr i = some answer ∧ ∀ thread,
      answer = some thread ↔ thread ∈ manager.threadList ∧ manager.pid thread = i := by
  -- The bitmap says whether anybody has the pid.
  have tested := manager.threadMap.test_inRange (num.pids.size ▸ below)
  cases used : manager.threadMap.bit i with
  | false =>
    -- A pid that is not in use is nobody's.
    refine ⟨none, by simp [ThreadManager.getThreadPtr, tested, used], fun thread => ?_⟩
    simp only [reduceCtorEq, false_iff, not_and]
    intro member number
    obtain ⟨j, its, -, taken⟩ := num.pids.numbered thread member
    obtain rfl : j = i := by omega
    simp [used] at taken
  | true =>
    obtain ⟨owner, member, number⟩ := num.used i below used
    -- The search stops at the owner, since nobody else in the list has the pid.
    have found : findByComp (manager.threadIDComp i) manager.threadList = some owner := by
      cases search : findByComp (manager.threadIDComp i) manager.threadList with
      | none =>
        have nobody := List.find?_eq_none.mp search owner member
        simp [threadIDComp, number] at nobody
      | some other =>
        have also := List.mem_of_find?_eq_some search
        have its : manager.pid other = i := by simpa [threadIDComp] using List.find?_some search
        rw [num.pids.apart other owner also member (its.trans number.symm)]
    refine ⟨some owner, by simp [ThreadManager.getThreadPtr, tested, used, found], ?_⟩
    -- The answer is the one thread with this number.
    intro thread
    rw [Option.some.injEq]
    constructor
    · rintro rfl
      exact ⟨member, number⟩
    · rintro ⟨also, its⟩
      exact num.pids.apart owner thread member also (number.trans its.symm)

/-- Every pid is counted, as free or as in use. -/
theorem Numbered.inUse (num : manager.Numbered) :
    manager.threadCnt = (List.range threadCountMax).countP manager.threadMap.bit := by
  have counted := num.counted
  have all := List.length_eq_countP_add_countP manager.threadMap.bit
    (l := List.range threadCountMax)
  unfold Bitmap.numClear at counted
  rw [num.pids.size] at counted
  simp only [List.length_range, Bool.not_eq_true, Bool.decide_eq_false] at all
  omega

/-- The threads in the list have the pids that are in use. -/
theorem Numbered.pid_iff (num : manager.Numbered) (pid : Int) :
    (∃ thread ∈ manager.threadList, manager.pid thread = pid) ↔
      0 ≤ pid ∧ pid < threadCountMax ∧ manager.threadMap.bit pid.toNat = true := by
  constructor
  · rintro ⟨thread, member, rfl⟩
    obtain ⟨i, number, below, used⟩ := num.pids.numbered thread member
    rw [number]
    exact ⟨by omega, by exact_mod_cast below, used⟩
  · rintro ⟨positive, below, used⟩
    obtain ⟨thread, member, number⟩ := num.used pid.toNat (by omega) used
    exact ⟨thread, member, by omega⟩

end ThreadManager

namespace ManagedThreads

/-- Only a live thread is deleted, and not the current one; only a live thread is switched to. -/
def Admitted (sys : ManagedThreads) : ManagerEvent → Prop
  | .createThread => True
  | .deleteThread thread => sys.manager.Live thread ∧ thread ≠ sys.currentThread
  | .switchTo thread => sys.manager.Live thread

instance (sys : ManagedThreads) : ∀ event, Decidable (sys.Admitted event)
  | .createThread => .isTrue trivial
  | .deleteThread thread =>
    inferInstanceAs (Decidable (sys.manager.Live thread ∧ thread ≠ sys.currentThread))
  | .switchTo thread => inferInstanceAs (Decidable (sys.manager.Live thread))

/-- Every admitted call succeeds, and leaves the books in order. -/
theorem step_numbered (sys : ManagedThreads) (event : ManagerEvent)
    (books : sys.manager.Numbered ∧ sys.currentThread ∈ sys.manager.threadList)
    (admitted : sys.Admitted event) : ∃ next, sys.step event = some next ∧
      next.manager.Numbered ∧ next.currentThread ∈ next.manager.threadList := by
  obtain ⟨num, current⟩ := books
  -- A thread is made, if there is room, or deleted, and never the current one.
  cases event with
  -- There is room for a new thread, or the call is refused.
  | createThread =>
    by_cases room : sys.manager.threadCnt + 1 < threadCountMax
    · obtain ⟨pid, below, free, made⟩ := num.createThread current room
      refine ⟨⟨sys.manager.added sys.currentThread pid, sys.currentThread⟩, by simp [step, made],
        num.added below free room _, ?_⟩
      exact List.mem_append_left _ current
    · -- Refused, the call changes nothing.
      have unchanged := ThreadManager.createThread_full room (some sys.currentThread)
      exact ⟨sys, by simp [step, unchanged], num, current⟩
  -- The thread is listed, and not the current one.
  | deleteThread thread =>
    obtain ⟨live, other⟩ := admitted
    have member := (num.listed thread).mpr live
    obtain ⟨pid, number, deleted⟩ := num.deleteThread member other
    refine ⟨⟨sys.manager.removed thread pid, sys.currentThread⟩, by simp [step, deleted],
      num.removed member number, ?_⟩
    exact num.once.mem_erase_iff.mpr ⟨other.symm, current⟩
  -- The processor goes to another thread, and the books stay.
  | switchTo thread => exact ⟨⟨sys.manager, thread⟩, rfl, num, (num.listed thread).mpr admitted⟩

end ManagedThreads

/--
Pids identify the live threads, whatever calls the thread manager gets.

The counter, the list and the bitmap describe the same threads, of which there are always fewer than
the maximum. No call fails, but `createThread` answers with the null pointer when one more thread
would reach it.
-/
theorem pids_identifyThreads (events : List ManagerEvent)
    (admitted : EveryStep ManagedThreads.step ManagedThreads.Admitted .start events) :
    ∃ sys, replay ManagedThreads.step .start events = some sys ∧
      sys.manager.threadCnt = sys.manager.threadList.length ∧
      sys.manager.threadCnt = (List.range threadCountMax).countP sys.manager.threadMap.bit ∧
      sys.manager.threadCnt ≤ threadCountMax - 1 ∧
      sys.manager.threadList.Pairwise (fun x y => sys.manager.pid x ≠ sys.manager.pid y) ∧
      (∀ pid, (∃ thread ∈ sys.manager.threadList, sys.manager.pid thread = pid) ↔
        0 ≤ pid ∧ pid < threadCountMax ∧ sys.manager.threadMap.bit pid.toNat = true) ∧
      (∃ answer next,
        sys.manager.createThread (some sys.currentThread) = some (answer, next) ∧
        (answer = none ↔ sys.manager.threadCnt = threadCountMax - 1)) ∧
      ∀ pid : Int, 0 ≤ pid → pid < threadCountMax →
        ∃ answer, sys.manager.getThreadPtr pid = some answer ∧ ∀ thread,
          answer = some thread ↔ thread ∈ sys.manager.threadList ∧ sys.manager.pid thread = pid := by
  -- At the start the books are in order, and they stay so along the run.
  have begun : ManagedThreads.start.manager.Numbered ∧
      ManagedThreads.start.currentThread ∈ ManagedThreads.start.manager.threadList :=
    ⟨ThreadManager.numbered_start, List.mem_singleton_self 0⟩
  obtain ⟨sys, ran, num, current⟩ := replay_progress ManagedThreads.step_numbered begun admitted
  have bound := num.bound
  have most : threadCountMax = 128 := rfl
  refine ⟨sys, ran, num.count, num.inUse, by omega, ?_, num.pid_iff, ?_, fun pid positive below => ?_⟩
  · -- Two places in the list are two threads, and two threads have two pids.
    refine num.once.imp_of_mem ?_
    intro x y first second different same
    exact different (num.pids.apart x y first second same)
  · -- The next call makes a thread if there is room, and says so.
    by_cases room : sys.manager.threadCnt + 1 < threadCountMax
    · obtain ⟨pid, -, -, made⟩ := num.createThread current room
      exact ⟨_, _, made, by simp; omega⟩
    · exact ⟨_, _, ThreadManager.createThread_full room _, by simp; omega⟩
  · -- A pid in range leads to its thread.
    have number : ((pid.toNat : Nat) : Int) = pid := Int.toNat_of_nonneg positive
    have found := num.getThreadPtr (i := pid.toNat) (by omega)
    rw [number] at found
    exact found

/-- A thread is made and deleted again, and the next one has its pid. -/
theorem pids_identifyThreads_reused :
    ∃ sys, replay ManagedThreads.step .start
        [.createThread, .createThread, .deleteThread 1, .createThread, .switchTo 3] = some sys ∧
      sys.manager.threadCnt = 3 ∧ sys.manager.pid 3 = 1 ∧
      sys.manager.getThreadPtr 1 = some (some 3) := by
  obtain ⟨sys, ran, -, -, -, -, -, -, found⟩ := pids_identifyThreads
    [.createThread, .createThread, .deleteThread 1, .createThread, .switchTo 3] (by decide +kernel)
  -- The run is evaluated apart from the answers of the theorem.
  have evaluated : (replay ManagedThreads.step .start
      [.createThread, .createThread, .deleteThread 1, .createThread, .switchTo 3]).map
        (fun sys => (sys.manager.threadCnt, sys.manager.pid 3, decide (3 ∈ sys.manager.threadList))) =
      some (3, 1, true) := by decide +kernel
  rw [ran] at evaluated
  simp only [Option.map_some, Option.some.injEq, Prod.mk.injEq, decide_eq_true_eq] at evaluated
  obtain ⟨count, number, member⟩ := evaluated
  -- The thread with pid 1 is the new one, by the theorem.
  obtain ⟨answer, answered, named⟩ := found 1 (by decide) (by decide)
  refine ⟨sys, ran, count, number, ?_⟩
  rw [answered, (named 3).mpr ⟨member, number⟩]

end Nachos
