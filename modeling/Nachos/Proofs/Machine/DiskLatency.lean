import Nachos.Machine.DiskLatency
import Nachos.Theory.Run

/-! The latency of the disk is that of a head over a rotating platter, with a track buffer. -/

namespace Nachos

/-- The sector passes under the head in this slot, the slots being counted from the start. -/
abbrev Passes (newSector slot : Int) : Prop := slot % sectorsPerTrack = newSector % sectorsPerTrack

/-- The first sector boundary that is not before a time, as a number of slots. -/
def boundarySlot (time : Int) : Int := (time + (rotationTime - 1)) / rotationTime

/-- There is no boundary between a time and the one that comes first after it. -/
theorem boundarySlot_le (time slot : Int) :
    time ≤ boundarySlot time * rotationTime ∧
      (time ≤ slot * rotationTime → boundarySlot time ≤ slot) := by
  simp only [boundarySlot, rotationTime]
  omega

/-- The boundaries are counted from the start. -/
theorem boundarySlot_nonneg {time : Int} (started : 0 ≤ time) : 0 ≤ boundarySlot time := by
  simp only [boundarySlot, rotationTime]
  omega

namespace DiskHead

/-- The time of a seek between two sectors. -/
def seekTo (head : DiskHead) (newSector : Int) : Int :=
  ((newSector / sectorsPerTrack - head.lastSector / sectorsPerTrack).natAbs : Int) * seekTime

/-- A sector passes under the head once in every turn, and first after `moduloDiff` sectors. -/
theorem passes_moduloDiff {newSector start : Int} (sector : 0 ≤ newSector) (slot : 0 ≤ start) :
    0 ≤ moduloDiff newSector start ∧ Passes newSector (start + moduloDiff newSector start) ∧
      ∀ other ≥ start, Passes newSector other → start + moduloDiff newSector start ≤ other := by
  -- No operand is negative, so that the remainders of the source are those of integers.
  have difference : moduloDiff newSector start =
      (newSector % 32 - start % 32 + 32) % 32 := by
    have offset : 0 ≤ newSector % 32 - start % 32 + 32 := by omega
    rw [← Int.tmod_eq_emod_of_nonneg offset, ← Int.tmod_eq_emod_of_nonneg sector,
      ← Int.tmod_eq_emod_of_nonneg slot]
    rfl
  rw [difference]
  simp only [Passes, sectorsPerTrack]
  refine ⟨by omega, by omega, fun other later passes => by omega⟩

/-- A seek takes no negative time. -/
theorem seekTo_nonneg (head : DiskHead) (newSector : Int) : 0 ≤ head.seekTo newSector := by
  simp only [seekTo, seekTime]
  omega

/-- No time is needed for a seek to the track where the head is. -/
theorem seekTo_eq_zero (head : DiskHead) (newSector : Int) :
    head.seekTo newSector = 0 ↔
      newSector / sectorsPerTrack = head.lastSector / sectorsPerTrack := by
  simp only [seekTo, seekTime]
  omega

/-- The time to seek, and until the sector boundary that comes first after it. -/
theorem timeToSeek_eq (head : DiskHead) {totalTicks newSector : Int} (ticks : 0 ≤ totalTicks)
    (last : OnDisk head.lastSector) (sector : OnDisk newSector) :
    (head.timeToSeek totalTicks newSector).1 = head.seekTo newSector ∧
      (head.timeToSeek totalTicks newSector).2 =
        boundarySlot (totalTicks + head.seekTo newSector) * rotationTime -
          (totalTicks + head.seekTo newSector) := by
  -- The source divides by tracks, as the specification does.
  have seek : (head.timeToSeek totalTicks newSector).1 = head.seekTo newSector := by
    simp only [timeToSeek, seekTo]
    rw [Int.tdiv_eq_ediv_of_nonneg sector.1, Int.tdiv_eq_ediv_of_nonneg last.1]
  -- The time after the seek is not negative.
  have long := head.seekTo_nonneg newSector
  have after : 0 ≤ totalTicks + head.seekTo newSector := by omega
  -- What is over since the last boundary is filled up to the next one.
  have rotation : (head.timeToSeek totalTicks newSector).2 =
      if (totalTicks + head.seekTo newSector) % 500 > 0 then
        500 - (totalTicks + head.seekTo newSector) % 500 else 0 := by
    rw [← Int.tmod_eq_emod_of_nonneg after, ← seek]
    rfl
  refine ⟨seek, ?_⟩
  rw [rotation]
  simp only [boundarySlot, rotationTime]
  -- Either a boundary is just reached, or the next one is waited for.
  split <;> omega

/-- What the track buffer has: what has passed under the head since it was started. -/
theorem buffered_iff (head : DiskHead) {totalTicks newSector : Int} (writing : Bool)
    (ticks : 0 ≤ totalTicks) (last : OnDisk head.lastSector) (sector : OnDisk newSector)
    (aligned : rotationTime ∣ head.bufferInit)
    (started : 0 ≤ head.bufferInit ∧ head.bufferInit ≤ totalTicks) :
    head.buffered totalTicks newSector writing = true ↔
      writing = false ∧ newSector / sectorsPerTrack = head.lastSector / sectorsPerTrack ∧
        ∃ slot, head.bufferInit / rotationTime ≤ slot ∧ slot < boundarySlot totalTicks ∧
          Passes newSector slot := by
  -- The time asked for includes the seek and the rotation.
  obtain ⟨seek, rotation⟩ := head.timeToSeek_eq ticks last sector
  -- The buffer was started at a boundary, the one of this slot.
  obtain ⟨start, starts⟩ := aligned
  have nonneg : 0 ≤ start := by
    simp only [rotationTime] at starts
    omega
  -- The division of the source gives this slot.
  have slot : head.bufferInit / rotationTime = start := by
    simp only [rotationTime] at starts ⊢
    omega
  have slot' : head.bufferInit.tdiv rotationTime = start := by
    rw [Int.tdiv_eq_ediv_of_nonneg started.1, slot]
  -- From there the sector passes first after so many slots.
  obtain ⟨few, passes, first⟩ := passes_moduloDiff sector.1 nonneg
  -- The boundary that is reached lies so many slots behind.
  have reached : boundarySlot totalTicks * rotationTime - head.bufferInit =
      (boundarySlot totalTicks - start) * rotationTime ∧ start ≤ boundarySlot totalTicks := by
    simp only [boundarySlot, rotationTime] at starts ⊢
    omega
  have slots : (boundarySlot totalTicks * rotationTime - head.bufferInit).tdiv rotationTime =
      boundarySlot totalTicks - start := by
    rw [reached.1]
    exact Int.mul_tdiv_cancel _ (by decide)
  -- A read without a seek asks for more slots than it takes until the sector passes.
  have test : head.buffered totalTicks newSector writing = true ↔
      writing = false ∧ head.seekTo newSector = 0 ∧
        moduloDiff newSector start < boundarySlot totalTicks - start := by
    simp only [buffered, seek, rotation, slot', Bool.and_eq_true, beq_iff_eq, decide_eq_true_eq,
      and_assoc]
    -- Without a seek the times are those of the boundary.
    refine and_congr_right fun _ => and_congr_right fun zero => ?_
    have boundary : totalTicks + 0 + (boundarySlot (totalTicks + 0) * rotationTime -
        (totalTicks + 0)) - head.bufferInit =
          boundarySlot totalTicks * rotationTime - head.bufferInit := by
      rw [Int.add_zero]
      omega
    rw [zero, boundary, slots]
  rw [test, seekTo_eq_zero, slot]
  refine and_congr_right fun _ => and_congr_right fun _ => ⟨fun within => ?_, ?_⟩
  · -- The slot in which the sector passes first is one of those.
    exact ⟨start + moduloDiff newSector start, by omega, by omega, passes⟩
  · -- A slot in which it passes comes no earlier than the first one.
    rintro ⟨other, later, before, passed⟩
    have least := first other later passed
    omega

/-- What the latency is when the track buffer does not help. -/
theorem computeLatency_unbuffered (head : DiskHead) {totalTicks newSector : Int} {writing : Bool}
    (ticks : 0 ≤ totalTicks) (last : OnDisk head.lastSector) (sector : OnDisk newSector)
    (missed : head.buffered totalTicks newSector writing = false) :
    totalTicks + head.computeLatency totalTicks newSector writing =
      (boundarySlot (totalTicks + head.seekTo newSector) +
        moduloDiff newSector (boundarySlot (totalTicks + head.seekTo newSector)) + 1) *
          rotationTime := by
  -- The head waits for the boundary after the seek.
  obtain ⟨seek, rotation⟩ := head.timeToSeek_eq ticks last sector
  have long := head.seekTo_nonneg newSector
  have nonneg := boundarySlot_nonneg (Int.add_nonneg ticks long)
  -- The slot that begins at the boundary after the seek.
  have slot : (totalTicks + head.seekTo newSector +
      (boundarySlot (totalTicks + head.seekTo newSector) * rotationTime -
        (totalTicks + head.seekTo newSector))).tdiv rotationTime =
          boundarySlot (totalTicks + head.seekTo newSector) := by
    rw [show totalTicks + head.seekTo newSector +
      (boundarySlot (totalTicks + head.seekTo newSector) * rotationTime -
        (totalTicks + head.seekTo newSector)) =
          boundarySlot (totalTicks + head.seekTo newSector) * rotationTime by omega]
    exact Int.mul_tdiv_cancel _ (by decide)
  -- From there on it waits for the sector, and one slot for the transfer.
  simp only [computeLatency, missed, Bool.false_eq_true, if_false, seek, rotation, slot]
  simp only [rotationTime]
  omega

end DiskHead

/--
The latency of a request is that of a head over a rotating disk.

A read of a sector that is in the track buffer takes the time of one transfer, and it is there when
it has passed under the head since the buffer was started. Every other request ends with the first
turn of its sector that begins after the seek.
-/
theorem latency_ofRotation (head : DiskHead) (totalTicks newSector : Int) (writing : Bool)
    (ticks : 0 ≤ totalTicks) (last : OnDisk head.lastSector) (sector : OnDisk newSector)
    (aligned : rotationTime ∣ head.bufferInit)
    (started : 0 ≤ head.bufferInit ∧ head.bufferInit ≤ totalTicks) :
    rotationTime ≤ head.computeLatency totalTicks newSector writing ∧
    (head.buffered totalTicks newSector writing = true ↔
      writing = false ∧ newSector / sectorsPerTrack = head.lastSector / sectorsPerTrack ∧
        ∃ slot, head.bufferInit / rotationTime ≤ slot ∧ slot < boundarySlot totalTicks ∧
          Passes newSector slot) ∧
    (head.buffered totalTicks newSector writing = true →
      head.computeLatency totalTicks newSector writing = rotationTime) ∧
    (head.buffered totalTicks newSector writing = false →
      rotationTime ∣ totalTicks + head.computeLatency totalTicks newSector writing ∧
      Passes newSector
        ((totalTicks + head.computeLatency totalTicks newSector writing) / rotationTime - 1) ∧
      ∀ other ≥ head.seekTo newSector + rotationTime, rotationTime ∣ totalTicks + other →
        Passes newSector ((totalTicks + other) / rotationTime - 1) →
          head.computeLatency totalTicks newSector writing ≤ other) := by
  have long := head.seekTo_nonneg newSector
  have nonneg := boundarySlot_nonneg (Int.add_nonneg ticks long)
  obtain ⟨few, passes, first⟩ := DiskHead.passes_moduloDiff sector.1 nonneg
  -- A read from the buffer takes one slot.
  have buffer : head.buffered totalTicks newSector writing = true →
      head.computeLatency totalTicks newSector writing = rotationTime := by
    intro found
    simp only [DiskHead.computeLatency, found, if_true]
  -- Any other request waits for its sector.
  have ends := @head.computeLatency_unbuffered totalTicks newSector writing ticks last sector
  refine ⟨?_, head.buffered_iff writing ticks last sector aligned started, buffer, fun missed => ?_⟩
  · -- No request is faster than a transfer.
    cases found : head.buffered totalTicks newSector writing with
    | true => exact Int.le_of_eq (buffer found).symm
    | false =>
      have late := ends found
      simp only [boundarySlot, rotationTime] at late few ⊢
      omega
  · -- The request ends with the turn of the sector that comes first after the seek.
    have late := ends missed
    have turn : (totalTicks + head.computeLatency totalTicks newSector writing) / rotationTime - 1 =
        boundarySlot (totalTicks + head.seekTo newSector) +
          DiskHead.moduloDiff newSector (boundarySlot (totalTicks + head.seekTo newSector)) := by
      rw [late, Int.mul_ediv_cancel _ (by decide)]
      omega
    refine ⟨⟨_, late.trans (Int.mul_comm _ _)⟩, ?_, fun other seeks divides passed => ?_⟩
    · -- The sector passes in the slot before the end.
      rw [turn]
      exact passes
    · -- Any other end is that of a later turn.
      obtain ⟨slot, ended⟩ := divides
      have begins : (totalTicks + other) / rotationTime - 1 = slot - 1 := by
        rw [ended, Int.mul_ediv_cancel_left _ (by decide)]
      rw [begins] at passed
      -- It begins after the seek.
      have after : slot - 1 ≥ boundarySlot (totalTicks + head.seekTo newSector) := by
        simp only [boundarySlot, rotationTime] at ended seeks ⊢
        omega
      have least := first _ after passed
      simp only [rotationTime] at late ended ⊢
      omega

/-- Sector 0 is read from the buffer at 1300, since it passed at 0, and sector 5 is waited for. -/
theorem latency_ofRotation_late :
    DiskHead.new.computeLatency 1300 0 false = rotationTime ∧
      Passes 5 ((1300 + DiskHead.new.computeLatency 1300 5 false) / rotationTime - 1) := by
  have near := latency_ofRotation .new 1300 0 false (by decide) (by decide) (by decide)
    (by decide) (by decide)
  have far := latency_ofRotation .new 1300 5 false (by decide) (by decide) (by decide)
    (by decide) (by decide)
  exact ⟨near.2.2.1 (by decide), (far.2.2.2 (by decide)).2.1⟩

namespace DiskHead

/-- No request is in progress, and the buffer was started at some sector boundary of the past. -/
structure Settled (head : DiskHead) (clock : Int) : Prop where
  idle : head.active = false
  last : OnDisk head.lastSector
  aligned : rotationTime ∣ head.bufferInit
  started : 0 ≤ head.bufferInit ∧ head.bufferInit ≤ clock

/-- Once a request has completed, its seek and the start of the buffer are in the past. -/
theorem Settled.serve {state next : DiskHead × Int} {use : Use} (settled : state.1.Settled state.2)
    (wait : 0 ≤ use.wait) (served : DiskHead.serve state use = some next) :
    next.1.Settled next.2 := by
  obtain ⟨head, clock⟩ := state
  obtain ⟨⟨due, after⟩, requested, served⟩ := Option.bind_eq_some_iff.mp served
  cases served
  -- The disk is idle between requests.
  have idle : ¬ head.active = true := by
    rw [settled.idle]
    exact Bool.false_ne_true
  -- A request for a sector that is not on the disk fails its assertion.
  by_cases sector : OnDisk use.newSector
  · simp only [request, if_neg idle, if_pos sector, Option.some.injEq, Prod.mk.injEq] at requested
    obtain ⟨rfl, rfl⟩ := requested
    -- The buffer was started in the past.
    have started : 0 ≤ head.bufferInit ∧ head.bufferInit ≤ clock := settled.started
    have ticks : 0 ≤ clock + use.wait := by omega
    obtain ⟨seek, rotation⟩ := head.timeToSeek_eq ticks settled.last sector
    have long := head.seekTo_nonneg use.newSector
    -- The request takes at least one slot.
    have latency := (latency_ofRotation head _ _ use.writing ticks settled.last sector
      settled.aligned ⟨started.1, by omega⟩).1
    by_cases near : head.seekTo use.newSector = 0
    · -- The head stays on its track, and the buffer keeps what it has.
      have same : ({ head with active := true }.updateLast (clock + use.wait)
          use.newSector).bufferInit = head.bufferInit := if_neg (not_not.mpr (seek.trans near))
      refine ⟨rfl, sector, ?_, ?_⟩
      · -- The buffer still begins at a boundary.
        rw [callBack, same]
        exact settled.aligned
      · -- It still begins in the past.
        rw [callBack, same]
        simp only [rotationTime] at latency
        omega
    · -- The buffer is started anew where the seek ends, before the transfer.
      have anew : ({ head with active := true }.updateLast (clock + use.wait)
          use.newSector).bufferInit =
            boundarySlot (clock + use.wait + head.seekTo use.newSector) * rotationTime := by
        have moved : ¬ (head.timeToSeek (clock + use.wait) use.newSector).1 = 0 := by
          rw [seek]
          exact near
        have set : ({ head with active := true }.updateLast (clock + use.wait)
            use.newSector).bufferInit = clock + use.wait +
              (head.timeToSeek (clock + use.wait) use.newSector).1 +
              (head.timeToSeek (clock + use.wait) use.newSector).2 := if_pos moved
        rw [set, seek, rotation]
        omega
      -- After a seek the buffer cannot help.
      have missed : head.buffered (clock + use.wait) use.newSector use.writing = false := by
        rw [← Bool.not_eq_true, head.buffered_iff use.writing ticks settled.last sector
          settled.aligned ⟨started.1, by omega⟩]
        exact fun found => near ((head.seekTo_eq_zero use.newSector).mpr found.2.1)
      -- So the request ends after the seek and a turn.
      have ends := head.computeLatency_unbuffered ticks settled.last sector missed
      have passes := passes_moduloDiff sector.1 (boundarySlot_nonneg (Int.add_nonneg ticks long))
      refine ⟨rfl, sector, ?_, ?_⟩
      · -- The new start is a boundary.
        rw [callBack, anew]
        exact Int.dvd_mul_left _ _
      · -- It is reached before the request completes.
        rw [callBack, anew]
        simp only [boundarySlot, rotationTime] at ends passes ⊢
        omega
  · simp only [request, if_neg idle, if_neg sector] at requested
    cases requested

end DiskHead

/-- After any requests, each made when the former one is done, the next finds the disk settled. -/
theorem settled_afterRequests {uses : List DiskHead.Use} {head : DiskHead} {clock : Int}
    (waits : EveryStep DiskHead.serve (fun _ use => 0 ≤ use.wait) (.new, 0) uses)
    (ran : replay DiskHead.serve (.new, 0) uses = some (head, clock)) : head.Settled clock := by
  have start : DiskHead.new.Settled 0 := ⟨rfl, by decide, by decide, by decide⟩
  exact @replay_guarded _ _ DiskHead.serve _ (fun state => state.1.Settled state.2)
    (fun _ _ _ settled wait served => settled.serve wait served) _ _ _ start waits ran

end Nachos
