import Mathlib.Algebra.Order.Ring.Int
import Nachos.Filesys.SynchDiskSystem
import Nachos.Proofs.Threads.Lock

/-! The disk has one request at a time, in every interleaving of the calls and the interrupt. -/

namespace Nachos

section

variable {Thread : Type} [DecidableEq Thread]

/-- Where the lock has a thread, by the stage of its call. -/
def SynchDiskSystem.Placed (sys : SynchDiskSystem Thread) (thread : Thread) :
    SynchDiskStage → Prop
  | .idle => sys.lock.stage thread = .outside
  | .entering _ => sys.lock.stage thread ≠ .vacated
  | .waiting _ _ | .parked _ _ => sys.lock.stage thread = .holding
  | .leaving number _ =>
    (sys.lock.stage thread = .holding ∨ sys.lock.stage thread = .vacated) ∧
      ∀ issued, number = some issued → issued ∈ sys.completed

/-- A request is with the device, or has come back from it, for this thread. -/
def SynchDiskStage.hasRequest : SynchDiskStage → Bool
  | .waiting _ _ | .parked _ _ => true
  | .idle | .entering _ | .leaving _ _ => false

/-- The device and the semaphore between two requests. -/
structure SynchDiskSystem.Resting (sys : SynchDiskSystem Thread) : Prop where
  active : sys.active = false
  pending : sys.pending = []
  semaphore : sys.semaphore = { value := 0, queue := [] }
  nobody : ∀ thread, (sys.stage thread).hasRequest = false

/-- The device and the semaphore while the device has a request. -/
structure SynchDiskSystem.Working (sys : SynchDiskSystem Thread) (thread : Thread)
    (number : Nat) : Prop where
  active : sys.active = true
  pending : sys.pending = [number]
  owner : ∃ data, sys.stage thread = .waiting number data ∧
      sys.semaphore = { value := 0, queue := [] } ∨
    sys.stage thread = .parked number data ∧ sys.semaphore = { value := 0, queue := [thread] }

/-- The device and the semaphore when the interrupt has come, and the thread has not taken it. -/
structure SynchDiskSystem.Served (sys : SynchDiskSystem Thread) (thread : Thread)
    (number : Nat) : Prop where
  active : sys.active = false
  pending : sys.pending = []
  semaphore : sys.semaphore = { value := 1, queue := [] }
  owner : ∃ data, sys.stage thread = .waiting number data
  completed : number ∈ sys.completed

/-- What every interleaving of the calls and the interrupts keeps. -/
structure SynchDiskSystem.Invariant (sys : SynchDiskSystem Thread) : Prop where
  locked : sys.lock.Invariant
  sound : sys.aborted = false
  placed : ∀ thread, sys.Placed thread (sys.stage thread)
  device : sys.Resting ∨ ∃ thread number, sys.Working thread number ∨ sys.Served thread number

variable {sys next : SynchDiskSystem Thread}

omit [DecidableEq Thread] in
/-- A new disk satisfies the invariant. -/
theorem SynchDiskSystem.invariant_new (synch : SynchDisk) :
    (new synch : SynchDiskSystem Thread).Invariant where
  locked := LockSystem.invariant_new
  sound := rfl
  placed := fun _ => rfl
  device := .inl ⟨rfl, rfl, rfl, fun _ => rfl⟩

omit [DecidableEq Thread] in
/-- Only one thread at a time has a request with the device. -/
theorem SynchDiskSystem.Invariant.alone (inv : sys.Invariant) {thread other : Thread}
    (requests : (sys.stage thread).hasRequest = true) (holding : sys.lock.stage other = .holding) :
    thread = other := by
  have placed := inv.placed thread
  have holds : sys.lock.stage thread = .holding := by
    cases stage : sys.stage thread with
    | waiting number data | parked number data =>
      rw [stage] at placed
      exact placed
    | _ => simp [stage, SynchDiskStage.hasRequest] at requests
  exact inv.locked.exclusive (by rw [holds]; rfl) (by rw [holding]; rfl)

omit [DecidableEq Thread] in
/-- While some other thread has the lock, the device rests. -/
theorem SynchDiskSystem.Invariant.resting (inv : sys.Invariant) {thread : Thread}
    (holding : sys.lock.stage thread = .holding)
    (without : (sys.stage thread).hasRequest = false) : sys.Resting := by
  rcases inv.device with resting | ⟨owner, number, working | served⟩
  · exact resting
  · obtain ⟨data, ⟨stage, -⟩ | ⟨stage, -⟩⟩ := working.owner <;>
      have same := inv.alone (by rw [stage]; rfl) holding <;>
      rw [← same, stage] at without <;> cases without
  · obtain ⟨data, stage⟩ := served.owner
    have same := inv.alone (by rw [stage]; rfl) holding
    rw [← same, stage] at without
    cases without

omit [DecidableEq Thread] in
/-- What is said of a thread that stays where it is goes on to hold. -/
theorem SynchDiskSystem.Placed.keep {thread : Thread} {stage : SynchDiskStage}
    (placed : sys.Placed thread stage)
    (moved : next.lock.stage thread = sys.lock.stage thread ∨
      (sys.lock.stage thread = .asleep ∧ next.lock.stage thread = .acquiring))
    (completed : ∀ number ∈ sys.completed, number ∈ next.completed) :
    next.Placed thread stage := by
  rcases moved with same | ⟨asleep, acquiring⟩
  · -- Where the thread stays as it was, what is said of it stays as well.
    cases stage with
    | leaving number data =>
      exact ⟨by rw [same]; exact placed.1, fun issued eq => completed _ (placed.2 issued eq)⟩
    | _ => simpa only [Placed, same] using placed
  · -- Only in the Acquire of a call does a thread sleep for the lock.
    cases stage with
    | entering request =>
      change next.lock.stage thread ≠ .vacated
      simp [acquiring]
    | _ => simp_all [Placed]

/-- A thread that moves between stages without a request leaves the device as it is. -/
theorem SynchDiskSystem.Invariant.device_move (inv : sys.Invariant) {thread : Thread}
    {stage : SynchDiskStage} (lock : LockSystem Thread) (synch : SynchDisk)
    (before : (sys.stage thread).hasRequest = false) (after : stage.hasRequest = false) :
    ({ sys with lock, synch }.move thread stage).Resting ∨ ∃ owner number,
      ({ sys with lock, synch }.move thread stage).Working owner number ∨
      ({ sys with lock, synch }.move thread stage).Served owner number := by
  -- The device rests, or it is at work, or it has served a request.
  rcases inv.device with resting | ⟨owner, number, working | served⟩
  · -- Where it rests no thread has a request, and the one that moves gets none.
    refine .inl ⟨resting.active, resting.pending, resting.semaphore, fun other => ?_⟩
    by_cases same : other = thread
    · rw [same, move_stage_self, after]
    · rw [move_stage_of_ne _ _ _ _ same]
      exact resting.nobody other
  -- The thread at work has a request, which the thread that moves has not.
  · have different : owner ≠ thread := fun same => by
      obtain ⟨data, ⟨there, -⟩ | ⟨there, -⟩⟩ := working.owner <;> rw [same] at there <;>
        rw [there] at before <;> cases before
    refine .inr ⟨owner, number, .inl ⟨working.active, working.pending, ?_⟩⟩
    rw [move_stage_of_ne _ _ _ _ different]
    exact working.owner
  · -- The same where the request has been served.
    have different : owner ≠ thread := fun same => by
      obtain ⟨data, there⟩ := served.owner
      rw [same] at there
      rw [there] at before
      cases before
    refine .inr ⟨owner, number, .inr ⟨served.active, served.pending, served.semaphore, ?_,
      served.completed⟩⟩
    rw [move_stage_of_ne _ _ _ _ different]
    exact served.owner

/-- A piece of the lock keeps the invariant. -/
theorem SynchDiskSystem.Invariant.lock_step (inv : sys.Invariant) {piece : LockEvent Thread}
    {lock : LockSystem Thread} (allowed : (sys.stage piece.thread).allows piece = true)
    (stepped : sys.lock.step piece = some lock) :
    ({ sys with lock }.move piece.thread
      ((sys.stage piece.thread).after piece)).Invariant := by
  have moves := inv.locked.step_own stepped
  have placed := inv.placed piece.thread
  -- A thread whose request is with the device has the lock, and does not release it yet.
  have without : (sys.stage piece.thread).hasRequest = false := by
    cases stage : sys.stage piece.thread with
    | waiting number data | parked number data =>
      rw [stage] at placed allowed
      cases piece <;> simp_all [Placed, LockEvent.Moves, SynchDiskStage.allows]
    | _ => rfl
  -- The piece does not give it one.
  have stays : ((sys.stage piece.thread).after piece).hasRequest = false := by
    cases piece <;> cases stage : sys.stage _ <;> simp_all [SynchDiskStage.after,
      SynchDiskStage.hasRequest]
  -- The lock keeps its own invariant, and the device is not concerned.
  refine ⟨LockSystem.invariant_step inv.locked stepped, inv.sound, fun other => ?_,
    inv.device_move lock sys.synch without stays⟩
  by_cases same : other = piece.thread
  · -- The thread of the piece is at a stage that allows the piece.
    subst same
    rw [move_stage_self]
    cases stage : sys.stage piece.thread with
    | waiting number data | parked number data => rw [stage] at without; cases without
    -- A thread that is idle touches no lock.
    | idle =>
      rw [stage] at placed allowed
      cases piece <;> simp_all [Placed, LockEvent.Moves, SynchDiskStage.allows]
    -- A thread that enters has not released the lock.
    | entering request =>
      rw [stage] at placed allowed
      have notVacated : lock.stage piece.thread ≠ .vacated := by
        cases piece with
        | acquire thread | hold thread => simp [moves.2]
        | p thread => rcases moves.2 with there | there <;> simp [there]
        | release thread => cases allowed
        | v thread => exact absurd moves.1 placed
      cases piece <;> exact notVacated
    -- A thread that leaves has the lock, or has just released it.
    | leaving number data =>
      rw [stage] at placed allowed
      cases piece with
      | acquire thread => cases allowed
      | p thread | hold thread => rcases placed.1 with there | there <;> simp_all [LockEvent.Moves]
      | release thread => exact ⟨.inr moves.2, placed.2⟩
      | v thread => exact moves.2
  · -- The other threads stay, and the lock has moved none of them but to wake it.
    rw [move_stage_of_ne _ _ _ _ same]
    exact (inv.placed other).keep (inv.locked.step_stage stepped same) fun _ => id

/-- A call that begins keeps the invariant. -/
theorem SynchDiskSystem.Invariant.call_step (inv : sys.Invariant) {thread : Thread}
    (idle : sys.stage thread = .idle) (request : DiskRequest) :
    (sys.move thread (.entering request)).Invariant := by
  refine ⟨inv.locked, inv.sound, fun other => ?_,
    inv.device_move sys.lock sys.synch (by rw [idle]; rfl) rfl⟩
  by_cases same : other = thread
  · subst same
    have placed := inv.placed other
    rw [idle] at placed
    rw [move_stage_self]
    change sys.lock.stage other ≠ .vacated
    rw [show sys.lock.stage other = .outside from placed]
    simp
  · rw [move_stage_of_ne _ _ _ _ same]
    exact (inv.placed other).keep (.inl rfl) fun _ => id

/-- A request that the device is given keeps the invariant: the device was resting. -/
theorem SynchDiskSystem.Invariant.issue_step (inv : sys.Invariant) {thread : Thread}
    {request : DiskRequest} (entering : sys.stage thread = .entering request)
    (holding : sys.lock.stage thread = .holding) (synch : SynchDisk) (data : Option Sector) :
    (sys.issue thread synch data).Invariant := by
  have resting := inv.resting holding (by rw [entering]; rfl)
  -- The device rests, so that the assertion in the source holds.
  unfold issue
  rw [if_neg (by simp [resting.active])]
  refine ⟨inv.locked, inv.sound, fun other => ?_, .inr ⟨thread, sys.issued, .inl ⟨rfl, ?_, ?_⟩⟩⟩
  · -- The thread that asks holds the lock.
    by_cases same : other = thread
    · rw [same, move_stage_self]
      exact holding
    · -- The others are where they were.
      rw [move_stage_of_ne _ _ _ _ same]
      exact (inv.placed other).keep (.inl rfl) fun _ => id
  · -- Its request is the only one that is pending.
    change sys.pending ++ [sys.issued] = _
    rw [resting.pending]
    rfl
  · -- The semaphore is at zero, and the thread has not tested it.
    exact ⟨data, .inl ⟨move_stage_self _ _ _, resting.semaphore⟩⟩

/-- A call that has the lock goes on to `P` or to `Release`, and keeps the invariant. -/
theorem SynchDiskSystem.Invariant.request_step (inv : sys.Invariant) {thread : Thread}
    {totalTicks : Int} {request : DiskRequest} (entering : sys.stage thread = .entering request)
    (holding : sys.lock.stage thread = .holding)
    (went : sys.request thread totalTicks request = some next) : next.Invariant := by
  cases request with
  -- A read looks into the cache first.
  | read sectorNumber =>
    simp only [request, Option.bind_eq_bind, Option.bind_eq_some_iff] at went
    obtain ⟨⟨data, synch⟩, -, went⟩ := went
    -- A miss has the device read the sector.
    cases found : sys.synch.lookup sectorNumber with
    | none =>
      rw [found] at went
      cases went
      exact inv.issue_step entering holding synch (some data)
    | some index =>
      -- A hit copies the slot, and the device is not asked.
      rw [found] at went
      cases went
      refine ⟨inv.locked, inv.sound, fun other => ?_,
        inv.device_move sys.lock synch (by rw [entering]; rfl) rfl⟩
      by_cases same : other = thread
      · rw [same, move_stage_self]
        exact ⟨.inl holding, by simp⟩
      · rw [move_stage_of_ne _ _ _ _ same]
        exact (inv.placed other).keep (.inl rfl) fun _ => id
  -- A write always goes to the device.
  | write sectorNumber data =>
    simp only [request, Option.bind_eq_bind, Option.bind_eq_some_iff] at went
    obtain ⟨synch, -, went⟩ := went
    cases went
    exact inv.issue_step entering holding synch none

/-- The test in `P` keeps the invariant: it succeeds when the interrupt of this request has come. -/
theorem SynchDiskSystem.Invariant.p_step (inv : sys.Invariant) {thread : Thread} {number : Nat}
    {data : Option Sector} (waiting : sys.stage thread = .waiting number data)
    {semaphore : Semaphore Thread} {passes : Bool}
    (tested : sys.semaphore.test thread = (semaphore, passes)) :
    Invariant ({ sys with semaphore }.move thread
      (if passes then .leaving (some number) data else .parked number data)) := by
  -- The thread holds the lock.
  have holding : sys.lock.stage thread = .holding := by
    have placed := inv.placed thread
    rw [waiting] at placed
    exact placed
  rcases inv.device with resting | ⟨owner, issued, working | served⟩
  · -- A device at rest has no thread in P.
    have nobody := resting.nobody thread
    rw [waiting] at nobody
    cases nobody
  · -- The device is at work on the request, so the thread goes to sleep.
    obtain ⟨kept, ⟨there, zero⟩ | ⟨there, -⟩⟩ := working.owner
    · -- It is the thread that holds the lock.
      have same : owner = thread := inv.alone (by rw [there]; rfl) holding
      subst same
      rw [waiting] at there
      cases there
      simp only [zero, Semaphore.test, if_true, List.nil_append] at tested
      cases tested
      -- The thread is parked, with its request still at the device.
      refine ⟨inv.locked, inv.sound, fun other => ?_,
        .inr ⟨owner, number, .inl ⟨working.active, working.pending, data, .inr ⟨?_, rfl⟩⟩⟩⟩
      · by_cases same : other = owner
        · rw [same, move_stage_self]
          exact holding
        · rw [move_stage_of_ne _ _ _ _ same]
          exact (inv.placed other).keep (.inl rfl) fun _ => id
      · exact move_stage_self _ _ _
    · -- The one that is asleep cannot test.
      have same : owner = thread := inv.alone (by rw [there]; rfl) holding
      rw [same, waiting] at there
      cases there
  · -- The device has served the request, and the unit is there.
    obtain ⟨kept, there⟩ := served.owner
    have same : owner = thread := inv.alone (by rw [there]; rfl) holding
    subst same
    rw [waiting] at there
    cases there
    simp only [served.semaphore, Semaphore.test, one_ne_zero, if_false, Int.sub_self] at tested
    -- The unit is taken, so the device is at rest again.
    cases tested
    refine ⟨inv.locked, inv.sound, fun other => ?_,
      .inl ⟨served.active, served.pending, rfl, fun other => ?_⟩⟩
    · -- Its request is among those that were completed.
      by_cases same : other = owner
      · rw [same, move_stage_self]
        exact ⟨.inl holding, fun issued eq => Option.some.inj eq ▸ served.completed⟩
      · rw [move_stage_of_ne _ _ _ _ same]
        exact (inv.placed other).keep (.inl rfl) fun _ => id
    · -- No other thread has a request, as it would have the lock.
      by_cases same : other = owner
      · rw [same, move_stage_self]
        rfl
      · rw [move_stage_of_ne _ _ _ _ same]
        exact Bool.eq_false_iff.mpr fun requests => same (inv.alone requests holding)

/-- The interrupt keeps the invariant: it is that of the one request the device has. -/
theorem SynchDiskSystem.Invariant.callBack_step (inv : sys.Invariant) {number : Nat}
    {rest : List Nat} (pending : sys.pending = number :: rest) :
    (sys.callBack number rest).Invariant := by
  rcases inv.device with resting | ⟨owner, issued, working | served⟩
  · -- At rest there is nothing that could interrupt.
    rw [resting.pending] at pending
    cases pending
  · obtain ⟨same, empty⟩ : issued = number ∧ [] = rest := by
      simpa [working.pending] using pending
    subst same empty
    -- What was completed before is still recorded.
    have recorded : ∀ earlier ∈ sys.completed, earlier ∈ sys.completed ++ [issued] :=
      fun earlier member => List.mem_append_left _ member
    obtain ⟨data, ⟨there, zero⟩ | ⟨there, zero⟩⟩ := working.owner
    · -- The thread is not asleep yet, and will find the unit.
      have result : sys.callBack issued [] = { sys with
          active := false, pending := [], completed := sys.completed ++ [issued]
          semaphore := { value := 1, queue := [] } } := by
        simp only [callBack, zero, Semaphore.v]
        rfl
      rw [result]
      exact ⟨inv.locked, inv.sound, fun other => (inv.placed other).keep (.inl rfl) recorded,
        .inr ⟨owner, issued, .inr ⟨rfl, rfl, rfl, ⟨data, there⟩, by simp⟩⟩⟩
    · -- The thread is woken, and will find the unit.
      have result : sys.callBack issued [] = { sys with
          active := false, pending := [], completed := sys.completed ++ [issued]
          semaphore := { value := 1, queue := [] } }.move owner (.waiting issued data) := by
        simp only [callBack, zero, Semaphore.v, there]
        rfl
      rw [result]
      refine ⟨inv.locked, inv.sound, fun other => ?_,
        .inr ⟨owner, issued, .inr ⟨rfl, rfl, rfl, ⟨data, move_stage_self _ _ _⟩, ?_⟩⟩⟩
      · -- The thread that is woken is where it was in the call, and the others stay.
        by_cases same : other = owner
        · have placed := inv.placed owner
          rw [there] at placed
          rw [same, move_stage_self]
          exact placed
        · rw [move_stage_of_ne _ _ _ _ same]
          exact (inv.placed other).keep (.inl rfl) recorded
      · change issued ∈ sys.completed ++ [issued]
        simp
  · -- A request that was served has no interrupt left.
    rw [served.pending] at pending
    cases pending

/-- What a step can do: one case for each event. -/
inductive SynchDiskSystem.Steps (sys : SynchDiskSystem Thread) :
    SynchDiskEvent Thread → SynchDiskSystem Thread → Prop
  | call {thread : Thread} {request : DiskRequest} (idle : sys.stage thread = .idle) :
      Steps sys (.call thread request) (sys.move thread (.entering request))
  | lock {piece : LockEvent Thread} {lock : LockSystem Thread}
      (allowed : (sys.stage piece.thread).allows piece = true)
      (locked : sys.lock.step piece = some lock) :
      Steps sys (.lock piece)
        ({ sys with lock }.move piece.thread ((sys.stage piece.thread).after piece))
  | request {thread : Thread} {totalTicks : Int} {request : DiskRequest}
      {next : SynchDiskSystem Thread} (entering : sys.stage thread = .entering request)
      (holding : sys.lock.stage thread = .holding)
      (went : sys.request thread totalTicks request = some next) :
      Steps sys (.request thread totalTicks) next
  | p {thread : Thread} {number : Nat} {data : Option Sector} {semaphore : Semaphore Thread}
      {passes : Bool} (waiting : sys.stage thread = .waiting number data)
      (tested : sys.semaphore.test thread = (semaphore, passes)) :
      Steps sys (.p thread) ({ sys with semaphore }.move thread
        (if passes then .leaving (some number) data else .parked number data))
  | interrupt {number : Nat} {rest : List Nat} (pending : sys.pending = number :: rest) :
      Steps sys .interrupt (sys.callBack number rest)

/-- A step does what its case says, and the guards of the case hold. -/
theorem SynchDiskSystem.step_cases {event : SynchDiskEvent Thread}
    (stepped : sys.step event = some next) : sys.Steps event next := by
  -- Each event has one stage in which it can happen.
  cases event with
  | call thread request =>
    cases stage : sys.stage thread with
    | idle =>
      simp only [step, stage, Option.some.injEq] at stepped
      rw [← stepped]
      exact .call stage
    | _ => simp [step, stage] at stepped
  | lock piece =>
    simp only [step, Option.ite_none_right_eq_some, Option.map_eq_some_iff] at stepped
    obtain ⟨allowed, lock, locked, rfl⟩ := stepped
    exact .lock allowed locked
  | request thread totalTicks =>
    cases stage : sys.stage thread with
    | entering request =>
      simp only [step, stage, Option.ite_none_right_eq_some] at stepped
      exact .request stage stepped.1 stepped.2
    | _ => simp [step, stage] at stepped
  | p thread =>
    cases stage : sys.stage thread with
    | waiting number data =>
      -- The test passes, or the thread goes to sleep.
      rcases tested : sys.semaphore.test thread with ⟨semaphore, _ | _⟩
      all_goals
        simp only [step, stage, tested, Option.some.injEq] at stepped
        rw [← stepped]
        exact .p stage tested
    | _ => simp [step, stage] at stepped
  | interrupt =>
    cases pending : sys.pending with
    | nil => simp [step, pending] at stepped
    | cons number rest =>
      simp only [step, pending, Option.some.injEq] at stepped
      rw [← stepped]
      exact .interrupt pending

/-- Every step keeps the invariant. -/
theorem SynchDiskSystem.invariant_step {event : SynchDiskEvent Thread} (inv : sys.Invariant)
    (stepped : sys.step event = some next) : next.Invariant := by
  cases step_cases stepped with
  | call idle => exact inv.call_step idle _
  | lock allowed locked => exact inv.lock_step allowed locked
  | request entering holding went => exact inv.request_step entering holding went
  | p waiting tested => exact inv.p_step waiting tested
  | interrupt pending => exact inv.callBack_step pending

/--
The disk has one request at a time, and each is completed by its own interrupt.

The device is never given a request while it is active, and has at most one interrupt pending; a
call that issued a request comes to its end only after the interrupt of that request; and while no
thread has the lock the semaphore has no unit and the device is idle.
-/
theorem synchDisk_oneRequest (synch : SynchDisk) (events : List (SynchDiskEvent Thread))
    (sys : SynchDiskSystem Thread)
    (reached : replay SynchDiskSystem.step (.new synch) events = some sys) :
    sys.aborted = false ∧ sys.lock.aborted = false ∧
    sys.pending.length ≤ 1 ∧
    (∀ thread number data, sys.stage thread = .leaving (some number) data →
      number ∈ sys.completed) ∧
    ((∀ thread, sys.lock.stage thread ≠ .holding) →
      sys.semaphore.value = 0 ∧ sys.active = false) := by
  have inv : sys.Invariant :=
    replay_invariant (fun _ _ _ => SynchDiskSystem.invariant_step)
      (SynchDiskSystem.invariant_new synch) reached
  refine ⟨inv.sound, inv.locked.sound, ?_, fun thread number data leaving => ?_, fun nobody => ?_⟩
  · -- At most one request is pending at each state of the device.
    rcases inv.device with resting | ⟨owner, number, working | served⟩
    · simp [resting.pending]
    · simp [working.pending]
    · simp [served.pending]
  · -- What the thread left with is the request that was completed.
    have placed := inv.placed thread
    rw [leaving] at placed
    exact placed.2 number rfl
  · -- Nobody holds the lock, so the device is at rest.
    rcases inv.device with resting | ⟨owner, number, both⟩
    · exact ⟨by rw [resting.semaphore], resting.active⟩
    · -- A thread with a request has the lock.
      have requests : (sys.stage owner).hasRequest = true := by
        rcases both with working | served
        · obtain ⟨data, ⟨there, -⟩ | ⟨there, -⟩⟩ := working.owner <;> rw [there] <;> rfl
        · obtain ⟨data, there⟩ := served.owner
          rw [there]
          rfl
      have placed := inv.placed owner
      cases stage : sys.stage owner with
      | waiting number data | parked number data =>
        -- That thread would hold the lock.
        rw [stage] at placed
        exact absurd placed (nobody owner)
      | _ => rw [stage] at requests; cases requests

/-- One thread reads, and another one writes as soon as the first is served. -/
def readThenWrite : List (SynchDiskEvent (Fin 2)) :=
  [.call 0 (.read 5), .lock (.acquire 0), .lock (.p 0), .lock (.hold 0), .request 0 30,
    .call 1 (.write 5 (.replicate sectorSize 1)), .lock (.acquire 1), .lock (.p 1),
    .p 0, .interrupt, .p 0, .lock (.release 0), .lock (.v 0),
    .lock (.p 1), .lock (.hold 1), .request 1 900, .interrupt, .p 1]

/-- Both requests are complete, and the second call has not returned yet. -/
theorem synchDisk_oneRequest_readThenWrite :
    ∃ sys, replay SynchDiskSystem.step (.new (.new (fun _ => .replicate sectorSize 0)
        (.replicate diskCacheSize ⟨0, 0, 0, 0, .replicate sectorSize 0⟩))) readThenWrite = some sys ∧
      sys.completed = [0, 1] ∧ sys.pending.length ≤ 1 := by
  have completed : (replay SynchDiskSystem.step (.new (.new (fun _ => .replicate sectorSize 0)
      (.replicate diskCacheSize ⟨0, 0, 0, 0, .replicate sectorSize 0⟩))) readThenWrite).map
        SynchDiskSystem.completed = some [0, 1] := by decide +kernel
  obtain ⟨sys, reached, completed⟩ := Option.map_eq_some_iff.mp completed
  exact ⟨sys, reached, completed, (synchDisk_oneRequest _ readThenWrite sys reached).2.2.1⟩

end

end Nachos
