import Nachos.Proofs.Filesys.SynchDisk
import Nachos.Proofs.Filesys.SynchDiskSystem
import Nachos.Theory.Linearizable

/-! To the threads that share it, the synchronous disk is a raw disk whose requests are atomic. -/

namespace Nachos

section

variable {Thread : Type} [DecidableEq Thread]

/-- A request that the raw disk serves at once; one off the disk is refused. -/
def Disk.perform (disk : Disk) : DiskRequest → Option (Option Sector × Disk)
  | .read sectorNumber => (disk.readRequest sectorNumber).map fun data => (some data, disk)
  | .write sectorNumber data =>
    (disk.writeRequest sectorNumber data).map fun disk => (none, disk)

/-- How far a call is: it has its effect when the thread has the lock and asks the disk. -/
def SynchDiskStage.phase : SynchDiskStage → CallPhase DiskRequest (Option Sector)
  | .idle => .idle
  | .entering request => .called request
  | .waiting _ data | .parked _ data | .leaving _ data => .done data

namespace SynchDiskSystem

/-- What is seen of a step: calls, and returns from `Release` at the end of a call. -/
def observe (sys : SynchDiskSystem Thread) : SynchDiskEvent Thread → SynchDiskSystem Thread →
    List (Action Thread DiskRequest (Option Sector))
  | .call thread request, _ => [.call thread request]
  | .lock (.v thread), _ =>
    match sys.stage thread with
    | .leaving _ data => [.ret thread data]
    | _ => []
  | _, _ => []

/-- The atomic disk behind the system: the raw disk, without the cache. -/
def atomic (sys : SynchDiskSystem Thread) : Atomic Thread Disk DiskRequest (Option Sector) :=
  .ofStages SynchDiskStage.phase sys.synch.disk sys.stage

variable {sys next : SynchDiskSystem Thread}

/-- What a step should do: the atomic disk follows it, and the cache stays coherent. -/
def Follows (sys : SynchDiskSystem Thread)
    (seen : List (Action Thread DiskRequest (Option Sector))) (next : SynchDiskSystem Thread) :
    Prop :=
  sys.atomic.Reaches Disk.perform seen next.atomic ∧ next.synch.Coherent

/-- A thread that moves between stages of one phase goes unseen. -/
theorem Follows.stay {thread : Thread} {stage : SynchDiskStage} (coherent : next.synch.Coherent)
    (disk : next.synch = sys.synch) (moved : next.stage = Function.update sys.stage thread stage)
    (same : stage.phase = (sys.stage thread).phase) : sys.Follows [] next := by
  refine ⟨?_, coherent⟩
  unfold atomic
  rw [disk, moved]
  exact .stay Disk.perform same

/-- A request has its effect on the raw disk, and its call goes on with the result. -/
theorem Follows.commit {thread : Thread} {request : DiskRequest} {data : Option Sector}
    {stage : SynchDiskStage} (entering : sys.stage thread = .entering request)
    (coherent : next.synch.Coherent) (moved : next.stage = Function.update sys.stage thread stage)
    (goes : stage.phase = .done data)
    (applied : sys.synch.disk.perform request = some (data, next.synch.disk)) :
    sys.Follows [] next := by
  refine ⟨?_, coherent⟩
  unfold atomic
  rw [moved]
  exact .effect (by rw [entering]; rfl) goes applied

/-- Whoever has the lock asks the disk for what the raw disk has. -/
theorem Follows.request {thread : Thread} {totalTicks : Int} {request : DiskRequest}
    (inv : sys.Invariant) (coherent : sys.synch.Coherent)
    (entering : sys.stage thread = .entering request) (holding : sys.lock.stage thread = .holding)
    (went : sys.request thread totalTicks request = some next) : sys.Follows [] next := by
  -- No request is under way while the lock is held for one.
  have resting := inv.resting holding (by rw [entering]; rfl)
  -- So the assertion in the source holds, and the request is given to the device.
  have issues : ∀ synch data, sys.issue thread synch data =
      { sys with
        synch, active := true, pending := sys.pending ++ [sys.issued]
        issued := sys.issued + 1 }.move thread (.waiting sys.issued data) := fun synch data => by
    rw [issue, if_neg (by simp [resting.active])]
  cases request with
  | read sectorNumber =>
    by_cases inRange : OnDisk sectorNumber
    · -- A hit or a miss, the data is what the raw disk has.
      obtain ⟨cache, read, kept⟩ := SynchDisk.readSector_coherent coherent totalTicks inRange
      have raw : sys.synch.disk.perform (.read sectorNumber) =
          some (some (sys.synch.disk sectorNumber), sys.synch.disk) := by
        rw [Disk.perform, Disk.readRequest, if_pos inRange, Option.map_some]
      simp only [SynchDiskSystem.request, read, Option.bind_eq_bind, Option.bind_some] at went
      -- A miss goes on to wait for the device.
      cases found : sys.synch.lookup sectorNumber with
      | none =>
        simp only [found, issues] at went
        cases went
        exact .commit entering kept rfl rfl raw
      -- A hit goes on to give the lock back.
      | some index =>
        simp only [found] at went
        cases went
        exact .commit entering kept rfl rfl raw
    · -- A sector off the disk fails the assertion.
      rw [SynchDiskSystem.request, SynchDisk.readSector_offDisk coherent totalTicks inRange] at went
      cases went
  | write sectorNumber data =>
    by_cases inRange : OnDisk sectorNumber
    · -- The raw disk takes the data, as the cache forgets what it has.
      obtain ⟨after, written, disk, kept⟩ := SynchDisk.writeSector_coherent coherent inRange data
      have raw : sys.synch.disk.perform (.write sectorNumber data) = some (none, after.disk) := by
        rw [Disk.perform, Disk.writeRequest, if_pos inRange, Option.map_some, disk]
      simp only [SynchDiskSystem.request, written, Option.bind_eq_bind, Option.bind_some,
        issues] at went
      cases went
      exact .commit entering kept rfl rfl raw
    · -- A sector off the disk fails the assertion here, too.
      rw [SynchDiskSystem.request, SynchDisk.writeSector_offDisk sys.synch inRange data] at went
      cases went

/-- A piece of the lock is seen only as the return of a call. -/
theorem Follows.lock {piece : LockEvent Thread} (coherent : sys.synch.Coherent)
    (lock : LockSystem Thread) :
    sys.Follows (sys.observe (.lock piece) next)
      ({ sys with lock }.move piece.thread ((sys.stage piece.thread).after piece)) := by
  cases piece with
  -- Giving the lock back is the return.
  | v thread =>
    cases stage : sys.stage thread with
    | leaving number data =>
      simp only [observe, stage, LockEvent.thread, SynchDiskStage.after]
      exact ⟨.leave Disk.perform (by rw [stage]; rfl) rfl, coherent⟩
    | _ =>
      simp only [observe, stage, LockEvent.thread, SynchDiskStage.after]
      exact .stay coherent rfl rfl (by rw [stage])
  -- Every other piece leaves the stage as it is.
  | acquire thread | p thread | hold thread | release thread => exact .stay coherent rfl rfl rfl

/-- The test in `P` is not seen: the call has had its effect. -/
theorem Follows.p {thread : Thread} {number : Nat} {data : Option Sector}
    (coherent : sys.synch.Coherent) (waiting : sys.stage thread = .waiting number data)
    (semaphore : Semaphore Thread) (passes : Bool) :
    sys.Follows [] ({ sys with semaphore }.move thread
      (if passes then .leaving (some number) data else .parked number data)) := by
  refine .stay coherent rfl rfl ?_
  -- Whether P takes the unit or sleeps, the data to return is the same.
  cases passes <;> simp [waiting, SynchDiskStage.phase]

/-- The interrupt is not seen: it wakes a call that has had its effect. -/
theorem Follows.callBack (coherent : sys.synch.Coherent) (number : Nat) (rest : List Nat) :
    sys.Follows [] (sys.callBack number rest) := by
  unfold SynchDiskSystem.callBack
  obtain ⟨semaphore, woken⟩ := sys.semaphore.v
  cases woken with
  | none => exact ⟨.refl Disk.perform sys.atomic, coherent⟩
  -- A thread that was asleep is woken, if there is one.
  | some woken =>
    cases stage : sys.stage woken with
    | parked number data =>
      simp only [stage]
      exact .stay coherent rfl rfl (by rw [stage]; rfl)
    | _ =>
      simp only [stage]
      exact ⟨.refl Disk.perform sys.atomic, coherent⟩

/-- The atomic disk follows every step, and the cache stays coherent. -/
theorem follows_step {event : SynchDiskEvent Thread} (inv : sys.Invariant)
    (coherent : sys.synch.Coherent) (stepped : sys.step event = some next) :
    sys.Follows (sys.observe event next) next := by
  cases step_cases stepped with
  -- A call is seen as it begins.
  | call idle => exact ⟨.enter Disk.perform (by rw [idle]; rfl) rfl, coherent⟩
  -- A piece of the lock is seen as a return, or not at all.
  | lock => exact .lock coherent _
  -- The request is where the call takes effect.
  | request entering holding went => exact .request inv coherent entering holding went
  -- The test changes nothing that is seen.
  | p waiting => exact .p coherent waiting _ _
  -- Nor does the interrupt.
  | interrupt => exact .callBack coherent _ _

end SynchDiskSystem

/--
The synchronous disk is linearizable: its calls take effect one at a time on a disk without a cache.

In every interleaving of the threads and of the interrupts, the results of `ReadSector` are those of
some order of the calls that the raw disk serves one after the other, and that keeps to the order in
which calls returned and began; and the raw disk is left as this order of calls leaves it.
-/
theorem synchDisk_linearizable (disk : Disk) (uninitialised : Vector DiskCacheEntry diskCacheSize)
    (events : List (SynchDiskEvent Thread)) (sys : SynchDiskSystem Thread)
    (history : List (Action Thread DiskRequest (Option Sector)))
    (reached : replay (recording SynchDiskSystem.step SynchDiskSystem.observe)
      (.new (.new disk uninitialised), []) events = some (sys, history)) :
    Linearizable Disk.perform disk sys.synch.disk history := by
  have cold : (SynchDisk.new disk uninitialised).Coherent :=
    SynchDisk.coherent_new _ _
  -- The atomic disk stands behind every run.
  exact linearizable_of_mapping SynchDiskSystem.atomic
    (fun sys => sys.Invariant ∧ sys.synch.Coherent)
    (fun _ _ _ holds stepped => ⟨SynchDiskSystem.invariant_step holds.1 stepped,
      (SynchDiskSystem.follows_step holds.1 holds.2 stepped).2⟩)
    (fun _ _ _ holds stepped => (SynchDiskSystem.follows_step holds.1 holds.2 stepped).1)
    ⟨SynchDiskSystem.invariant_new _, cold⟩ rfl reached

/-- The second call begins before the first one returns, and has not returned yet. -/
theorem synchDisk_linearizable_readThenWrite :
    ∃ sys history, replay (recording SynchDiskSystem.step SynchDiskSystem.observe)
        (.new (.new (fun _ => .replicate sectorSize 0)
          (.replicate diskCacheSize ⟨0, 0, 0, 0, .replicate sectorSize 0⟩)), []) readThenWrite =
        some (sys, history) ∧
      history.map Action.thread = [0, 1, 0] ∧
      Linearizable Disk.perform (fun _ => .replicate sectorSize 0) sys.synch.disk history := by
  -- The threads of the calls that were seen are computed.
  have seen : (replay (recording SynchDiskSystem.step SynchDiskSystem.observe)
      (.new (.new (fun _ => .replicate sectorSize 0)
        (.replicate diskCacheSize ⟨0, 0, 0, 0, .replicate sectorSize 0⟩)), []) readThenWrite).map
        (fun record => record.2.map Action.thread) = some [0, 1, 0] := by decide +kernel
  obtain ⟨⟨sys, history⟩, reached, threads⟩ := Option.map_eq_some_iff.mp seen
  exact ⟨sys, history, reached, threads,
    synchDisk_linearizable _ _ readThenWrite sys history reached⟩

end

end Nachos
