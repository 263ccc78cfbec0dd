import Nachos.Proofs.Threads.Lock

/-! A free lock that somebody waits for is about to be taken. -/

namespace Nachos

variable {Thread : Type} [DecidableEq Thread]

/-- Where a thread is that has this piece in front of it. -/
def LockEvent.before : LockEvent Thread → LockStage
  | .acquire _ => .outside
  | .p _ => .acquiring
  | .hold _ => .granted
  | .release _ => .holding
  | .v _ => .vacated

namespace LockSystem

variable {sys next : LockSystem Thread}

/-- Whoever has a piece in front of it can go on. -/
theorem step_isSome (piece : LockEvent Thread) (there : sys.stage piece.thread = piece.before) :
    (sys.step piece).isSome := by
  cases piece with
  | acquire thread | hold thread =>
    simp only [LockEvent.thread, LockEvent.before] at there
    simp [LockSystem.step, there]
  | p thread | release thread | v thread =>
    simp only [LockEvent.thread, LockEvent.before] at there
    simp only [LockSystem.step, if_pos there]
    split <;> rfl

/-- While threads sleep and the unit is free, somebody who has been woken is about to test it. -/
def Lively (sys : LockSystem Thread) : Prop :=
  sys.semaphore.queue ≠ [] → sys.semaphore.value ≠ 0 → ∃ thread, sys.stage thread = .acquiring

/-- Every step keeps that: a thread that finds a unit leaves none, and `V` wakes somebody. -/
theorem Lively.step {event : LockEvent Thread} (lively : sys.Lively) (inv : sys.Invariant)
    (stepped : sys.step event = some next) : next.Lively := by
  rcases step_cases stepped with ⟨thread, -, stage, rfl⟩ | ⟨thread, -, stage, positive, rfl⟩ |
    ⟨thread, -, stage, zero, rfl⟩ | ⟨thread, -, stage, rfl⟩ | ⟨thread, -, stage, held, rfl⟩ |
    ⟨thread, -, stage, refuted, rfl⟩ | ⟨thread, -, stage, empty, rfl⟩ |
    ⟨thread, woken, rest, -, stage, queue, rfl⟩
  · exact fun _ _ => ⟨thread, move_stage_self _ _ _⟩
  · -- There is only one unit.
    intro _ more
    rcases inv.unit with ⟨one, -⟩ | ⟨_, zero, -⟩
    · simp [one] at more
    · exact absurd zero positive
  · exact fun _ positive => absurd zero positive
  · exact fun _ positive => absurd (inv.owner stage rfl).1 positive
  · exact fun _ positive => absurd (inv.owner stage rfl).1 positive
  · exact lively
  · exact fun queued => absurd empty queued
  · -- The thread that is woken is not the one that wakes it.
    have asleep : sys.stage woken = .asleep := (inv.queued_iff woken).mp (by simp [queue])
    have different : woken ≠ thread := fun same => by simp [same, stage] at asleep
    exact fun _ _ => ⟨woken, by rw [move_stage_of_ne _ _ _ _ different, move_stage_self]⟩

omit [DecidableEq Thread] in
/-- If anybody is in the lock or on the way to it, then somebody there is awake. -/
theorem Lively.awake (lively : sys.Lively) (inv : sys.Invariant) {thread : Thread}
    (inside : sys.stage thread ≠ .outside) :
    ∃ other, sys.stage other ≠ .outside ∧ sys.stage other ≠ .asleep := by
  -- A thread that is awake is its own witness.
  by_cases asleep : sys.stage thread = .asleep
  swap
  · exact ⟨thread, inside, asleep⟩
  -- Somebody sleeps in the queue, so the unit is either taken or on its way to somebody.
  have queued := (inv.queued_iff thread).mpr asleep
  rcases inv.unit with ⟨one, -⟩ | ⟨owner, -, -, alone⟩
  · -- The unit is free, and a woken thread is about to take it.
    obtain ⟨other, acquiring⟩ := lively (List.ne_nil_of_mem queued) (by simp [one])
    exact ⟨other, by simp [acquiring], by simp [acquiring]⟩
  · -- The owner of the unit is past its P.
    have past := (alone owner).mpr rfl
    refine ⟨owner, fun outside => ?_, fun sleeps => ?_⟩
    · simp [outside, LockStage.pastP] at past
    · simp [sleeps, LockStage.pastP] at past

end LockSystem

end Nachos
