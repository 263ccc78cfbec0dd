import Nachos.Proofs.Filesys.SynchDisk
import Nachos.Theory.Least
import Nachos.Theory.Run

/-! Which sector leaves the disk cache when another one comes in. -/

namespace Nachos

/-- What the clock showed at the last read of a sector, hit or miss, in a run of requests. -/
def lastRead (sectorNumber : Int) (requests : List (Int × DiskRequest)) : Option Int :=
  requests.foldl (fun last timed => match timed with
    | (totalTicks, .read target) => if target = sectorNumber then some totalTicks else last
    | (_, .write _ _) => last) none

/-- A read sets the time of its own sector, and of no other. -/
@[simp] theorem lastRead_read (sectorNumber target totalTicks : Int)
    (requests : List (Int × DiskRequest)) :
    lastRead sectorNumber (requests ++ [(totalTicks, .read target)]) =
      if target = sectorNumber then some totalTicks else lastRead sectorNumber requests := by
  simp [lastRead]

/-- A write is not a read. -/
@[simp] theorem lastRead_write (sectorNumber target totalTicks : Int) (data : Sector)
    (requests : List (Int × DiskRequest)) :
    lastRead sectorNumber (requests ++ [(totalTicks, .write target data)]) =
      lastRead sectorNumber requests := by
  simp [lastRead]

namespace SynchDisk

/-- Serve one request, the clock showing its first component. -/
def step (synch : SynchDisk) : Int × DiskRequest → Option SynchDisk
  | (totalTicks, .read sectorNumber) => (synch.readSector totalTicks sectorNumber).map Prod.snd
  | (_, .write sectorNumber data) => synch.writeSector sectorNumber data

/-- The slot holds a valid sector. -/
abbrev Valid (synch : SynchDisk) (i : Fin diskCacheSize) : Prop := (synch.slot i).valid = 1

/-- A valid slot holds the sector. -/
def Cached (synch : SynchDisk) (sectorNumber : Int) : Prop :=
  ∃ i, synch.Valid i ∧ (synch.slot i).sector = sectorNumber

instance (synch : SynchDisk) (sectorNumber : Int) : Decidable (synch.Cached sectorNumber) :=
  inferInstanceAs (Decidable (∃ _ : Fin diskCacheSize, _))

/-- What the slots record about the requests that have been served. -/
structure Recorded (synch : SynchDisk) (requests : List (Int × DiskRequest)) : Prop where
  -- No slot is ever in the state that the search for a free slot looks for.
  states : ∀ i : Fin diskCacheSize, (synch.slot i).valid = 1 ∨ (synch.slot i).valid = -1
  times : ∀ i, synch.Valid i → lastRead (synch.slot i).sector requests = some (synch.slot i).lru
  apart : ∀ i j, synch.Valid i → synch.Valid j → (synch.slot i).sector = (synch.slot j).sector →
    i = j

/-- A lookup that finds nothing means that no valid slot has the sector. -/
theorem lookup_none {synch : SynchDisk} {sectorNumber : Int} :
    synch.lookup sectorNumber = none ↔ ¬ synch.Cached sectorNumber := by
  simp [lookup, Cached, Valid, slot]

/-- A slot that takes the sector records the read, if no other valid slot has the sector. -/
theorem Recorded.store {synch : SynchDisk} {requests : List (Int × DiskRequest)}
    (recorded : synch.Recorded requests) (index : Fin diskCacheSize) (slot : DiskCacheEntry)
    (valid : slot.valid = 1)
    (alone : ∀ i, i ≠ index → synch.Valid i → (synch.slot i).sector ≠ slot.sector) :
    (synch.store index slot).Recorded
      (requests ++ [(slot.lru, .read slot.sector)]) := by
  refine ⟨fun i => ?_, fun i holds => ?_, fun i j first second equal => ?_⟩
  · -- The states are those of the slots, and that of the new one.
    rw [slot_store]
    split
    · exact .inl valid
    · exact recorded.states i
  · -- The times are those of the reads.
    simp only [Valid, slot_store] at holds ⊢
    split at holds
    · -- The slot itself has just been read.
      rename_i here
      simp [here]
    · -- The other slots have been read when they were.
      rename_i other
      rw [if_neg other, lastRead_read, if_neg (Ne.symm (alone i other holds))]
      exact recorded.times i holds
  · -- No two valid slots have the same sector.
    simp only [Valid, slot_store] at first second equal
    split at first <;> split at second
    · rename_i here there
      rw [here, there]
    · -- The other one would have the sector that is stored.
      rename_i here other
      rw [if_pos here, if_neg other] at equal
      exact absurd equal.symm (alone j other second)
    · -- The same the other way round.
      rename_i other here
      rw [if_neg other, if_pos here] at equal
      exact absurd equal (alone i other first)
    · -- Both are as they were.
      rename_i other also
      rw [if_neg other, if_neg also] at equal
      exact recorded.apart i j first second equal

/-- A write drops slots and records nothing. -/
theorem Recorded.drop {synch : SynchDisk} {requests : List (Int × DiskRequest)}
    (recorded : synch.Recorded requests) (disk : Disk) (sectorNumber totalTicks : Int)
    (data : Sector) :
    Recorded ⟨disk, synch.cache.map fun slot =>
        if slot.sector = sectorNumber then { slot with valid := -1 } else slot⟩
      (requests ++ [(totalTicks, .write sectorNumber data)]) := by
  -- A slot that is still valid is as it was.
  have kept : ∀ i, Valid ⟨disk, synch.cache.map fun slot =>
      if slot.sector = sectorNumber then { slot with valid := -1 } else slot⟩ i →
      synch.Valid i ∧ slot ⟨disk, synch.cache.map fun slot =>
        if slot.sector = sectorNumber then { slot with valid := -1 } else slot⟩ i =
          synch.slot i := by
    intro i holds
    simp only [Valid, slot, Fin.getElem_fin, Vector.getElem_map] at holds ⊢
    split at holds
    · cases holds
    · rename_i other
      rw [if_neg other]
      exact ⟨holds, rfl⟩
  refine ⟨fun i => ?_, fun i holds => ?_, fun i j first second equal => ?_⟩
  · -- The slots that are dropped are marked as not valid.
    simp only [slot, Fin.getElem_fin, Vector.getElem_map]
    split
    · exact .inr rfl
    · exact recorded.states i
  · -- Nothing has been read by this request.
    obtain ⟨valid, same⟩ := kept i holds
    rw [lastRead_write, same]
    exact recorded.times i valid
  · -- Both slots were valid before, and apart.
    obtain ⟨valid, same⟩ := kept i first
    obtain ⟨also, alike⟩ := kept j second
    rw [same, alike] at equal
    exact recorded.apart i j valid also equal

/-- A read puts the sector in a slot: the one that has it, or else the one to replace. -/
theorem readSector_some {synch after : SynchDisk} {totalTicks sectorNumber : Int} {data : Sector}
    (read : synch.readSector totalTicks sectorNumber = some (data, after)) :
    (∃ index, synch.lookup sectorNumber = some index ∧
      after = synch.store index { synch.slot index with lru := totalTicks }) ∨
    (¬ synch.Cached sectorNumber ∧
      after = synch.store synch.swap
        { valid := 1, dirty := 0, sector := sectorNumber, lru := totalTicks, data }) := by
  unfold readSector at read
  -- A hit only marks the entry as used now, and a miss replaces one.
  cases found : synch.lookup sectorNumber with
  | some index =>
    -- The sector was found.
    rw [found] at read
    cases read
    exact .inl ⟨index, rfl, rfl⟩
  -- The sector was not found.
  | none =>
    rw [found] at read
    obtain ⟨raw, -, read⟩ := Option.bind_eq_some_iff.mp read
    cases read
    exact .inr ⟨lookup_none.mp found, rfl⟩

/-- Serving a request records it. -/
theorem Recorded.step {synch after : SynchDisk} {requests : List (Int × DiskRequest)}
    (recorded : synch.Recorded requests) {timed : Int × DiskRequest}
    (served : synch.step timed = some after) : after.Recorded (requests ++ [timed]) := by
  obtain ⟨totalTicks, request⟩ := timed
  cases request with
  -- A read, which hits or misses.
  | read sectorNumber =>
    obtain ⟨⟨data, next⟩, read, rfl⟩ := Option.map_eq_some_iff.mp served
    rcases readSector_some read with ⟨index, found, rfl⟩ | ⟨missed, rfl⟩
    · -- The sectors of valid slots are apart, so only this one has it.
      obtain ⟨valid, same⟩ : synch.Valid index ∧ (synch.slot index).sector = sectorNumber :=
        lookup_some found
      have stored := recorded.store index { synch.slot index with lru := totalTicks } valid
        fun i other holds equal => other (recorded.apart i index holds valid equal)
      rwa [same] at stored
    · -- On a miss no valid slot has the sector.
      exact recorded.store synch.swap ⟨1, 0, sectorNumber, totalTicks, data⟩ rfl
        fun i _ holds equal => missed ⟨i, holds, equal⟩
  -- A write, which drops the slot of its sector.
  | write sectorNumber data =>
    obtain ⟨disk, -, written⟩ := Option.bind_eq_some_iff.mp served
    cases written
    exact recorded.drop disk sectorNumber totalTicks data

/-- After any requests, the slots record them. -/
theorem recorded_of_replay {disk : Disk} {uninitialised : Vector DiskCacheEntry diskCacheSize}
    {requests : List (Int × DiskRequest)} {synch : SynchDisk}
    (reached : replay step (.new disk uninitialised) requests = some synch) :
    synch.Recorded requests := by
  have invalid : ∀ i : Fin diskCacheSize, ((new disk uninitialised).slot i).valid = -1 := by
    simp [new, slot]
  have start : (new disk uninitialised).Recorded [] := by
    refine ⟨fun i => .inr (invalid i), fun i holds => ?_, fun i j holds => ?_⟩
    · rw [Valid, invalid i] at holds
      cases holds
    · rw [Valid, invalid i] at holds
      cases holds
  exact replay_history (fun _ _ _ _ recorded served => recorded.step served) start reached

/-- The search for a slot finds no free one, so it only compares the times. -/
theorem Recorded.swap_eq {synch : SynchDisk} {requests : List (Int × DiskRequest)}
    (recorded : synch.Recorded requests) :
    synch.swap = leastFrom (fun i : Fin diskCacheSize => (synch.slot i).lru) 0
      (List.finRange diskCacheSize) := by
  -- The two searches take the same turns.
  have walked : ∀ (indices : List (Fin diskCacheSize)) swap, synch.swapFrom swap indices =
      leastFrom (fun i : Fin diskCacheSize => (synch.slot i).lru) swap indices := by
    intro indices
    induction indices with
    | nil => exact fun swap => rfl
    | cons i rest ih =>
      intro swap
      -- Free slots are marked by -1, and the test is for 0.
      have taken : ¬ (synch.slot i).valid = 0 := by
        rcases recorded.states i with valid | invalid <;> omega
      have step : synch.swapFrom swap (i :: rest) =
          if (synch.slot i).valid = 0 then i
          else if (synch.slot i).lru < (synch.slot swap).lru then synch.swapFrom i rest
          else synch.swapFrom swap rest := rfl
      rw [step, if_neg taken, leastFrom, ih, ih]
  exact walked _ _

/-- A slot without a valid sector has the least time, and is the first that has it. -/
def SparesValid (synch : SynchDisk) : Prop :=
  ∃ i, ¬ synch.Valid i ∧ ∀ j, synch.Valid j →
    (synch.slot i).lru < (synch.slot j).lru ∨ (synch.slot i).lru = (synch.slot j).lru ∧ i < j

instance (synch : SynchDisk) : Decidable synch.SparesValid :=
  inferInstanceAs (Decidable (∃ _ : Fin diskCacheSize, _ ∧ ∀ _ : Fin diskCacheSize, _))

/-- What should become of the cache when a sector comes in that was not there. -/
structure ReplacesSensibly (synch after : SynchDisk) (requests : List (Int × DiskRequest))
    (sectorNumber : Int) : Prop where
  -- A slot without a valid sector is used, and every valid sector stays.
  free : (∃ i, ¬ synch.Valid i) →
    (∃ i, ¬ synch.Valid i ∧ after.Valid i ∧ (after.slot i).sector = sectorNumber) ∧
      ∀ other, synch.Cached other → after.Cached other
  -- Otherwise one sector leaves, whose last read is the oldest.
  full : (∀ i, synch.Valid i) → after.Cached sectorNumber ∧
    ∃ dropped time, synch.Cached dropped ∧ ¬ after.Cached dropped ∧
      lastRead dropped requests = some time ∧
      ∀ other, synch.Cached other → other ≠ dropped →
        after.Cached other ∧ ∃ later, lastRead other requests = some later ∧ time ≤ later

/-- What a slot taken by a sector changes: that sector is found there, and the others elsewhere. -/
theorem cached_store (synch : SynchDisk) (index : Fin diskCacheSize) {slot : DiskCacheEntry}
    (valid : slot.valid = 1) (sectorNumber : Int) :
    (synch.store index slot).Cached sectorNumber ↔
      slot.sector = sectorNumber ∨
        ∃ i, i ≠ index ∧ synch.Valid i ∧ (synch.slot i).sector = sectorNumber := by
  simp only [Cached, Valid, slot_store]
  -- The entry that is stored has the sector, or one of the others has it still.
  constructor
  · rintro ⟨i, holds, same⟩
    split at holds
    · -- It is the slot that was stored.
      rename_i here
      rw [if_pos here] at same
      exact .inl same
    · -- It is one of the others.
      rename_i other
      rw [if_neg other] at same
      exact .inr ⟨i, other, holds, same⟩
  · -- The other way: each of the two is found.
    rintro (same | ⟨i, other, holds, same⟩)
    · exact ⟨index, by rw [if_pos rfl, valid], by rw [if_pos rfl, same]⟩
    · exact ⟨i, by rw [if_neg other, holds], by rw [if_neg other, same]⟩

/-- The slot to replace comes first in the order of times, and then in the order of slots. -/
theorem Recorded.swap_first {synch : SynchDisk} {requests : List (Int × DiskRequest)}
    (recorded : synch.Recorded requests) (i : Fin diskCacheSize) :
    (synch.slot synch.swap).lru < (synch.slot i).lru ∨
      (synch.slot synch.swap).lru = (synch.slot i).lru ∧ synch.swap ≤ i := by
  have first := leastFrom_finRange (fun i : Fin diskCacheSize => (synch.slot i).lru) i
  rwa [← recorded.swap_eq] at first

/-- The slot to replace holds no valid sector exactly if such a slot comes first. -/
theorem Recorded.sparesValid_iff {synch : SynchDisk} {requests : List (Int × DiskRequest)}
    (recorded : synch.Recorded requests) : synch.SparesValid ↔ ¬ synch.Valid synch.swap := by
  constructor
  · -- A slot that is free comes first, so it is the one to replace.
    rintro ⟨i, invalid, before⟩ valid
    have first := recorded.swap_first i
    have late := before synch.swap valid
    omega
  · -- The one to replace is itself free, and comes first.
    intro invalid
    refine ⟨synch.swap, invalid, fun j valid => ?_⟩
    have apart : synch.swap ≠ j := by
      rintro rfl
      exact invalid valid
    have first := recorded.swap_first j
    omega

/-- On a miss the cache replaces sensibly exactly if it is full, or a free slot comes first. -/
theorem Recorded.replaces_iff {synch : SynchDisk} {requests : List (Int × DiskRequest)}
    (recorded : synch.Recorded requests) {sectorNumber : Int}
    (missed : ¬ synch.Cached sectorNumber) (totalTicks : Int) (data : Sector) :
    synch.ReplacesSensibly (synch.store synch.swap ⟨1, 0, sectorNumber, totalTicks, data⟩)
      requests sectorNumber ↔ (∀ i, synch.Valid i) ∨ synch.SparesValid := by
  have stored : DiskCacheEntry.valid ⟨1, 0, sectorNumber, totalTicks, data⟩ = 1 := rfl
  have found := cached_store synch synch.swap stored
  constructor
  · -- One way: replacing was sensible.
    intro sensible
    by_cases full : ∀ i, synch.Valid i
    · exact .inl full
    · right
      rw [recorded.sparesValid_iff]
      obtain ⟨⟨i, invalid, valid, -⟩, -⟩ := sensible.free (not_forall.mp full)
      -- Only the slot that is replaced can have become valid.
      simp only [Valid, slot_store] at valid
      split at valid
      · rename_i here
        rwa [← here]
      · exact absurd valid invalid
  · -- The other way: the cache is full, or a free slot comes first.
    intro condition
    refine ⟨fun free => ?_, fun full => ⟨(found _).mpr (.inl rfl), ?_⟩⟩
    · -- A free slot takes the sector.
      have spares : ¬ synch.Valid synch.swap := by
        rcases condition with full | spares
        · obtain ⟨i, invalid⟩ := free
          exact absurd (full i) invalid
        · exact recorded.sparesValid_iff.mp spares
      refine ⟨⟨synch.swap, spares, ?_, ?_⟩, fun other => ?_⟩
      · simp [Valid, slot_store]
      · simp [slot_store]
      · -- A valid slot is not the one that is replaced.
        rintro ⟨i, valid, same⟩
        refine (found other).mpr (.inr ⟨i, ?_, valid, same⟩)
        rintro rfl
        exact spares valid
    · -- Every slot is taken, and the oldest one is replaced.
      refine ⟨(synch.slot synch.swap).sector, (synch.slot synch.swap).lru,
        ⟨_, full _, rfl⟩, ?_, recorded.times _ (full _), ?_⟩
      · -- Its sector is in the cache no more.
        rw [found]
        rintro (same | ⟨i, apart, valid, same⟩)
        · exact missed ⟨_, full _, same.symm⟩
        · exact apart (recorded.apart i _ valid (full _) same)
      · -- The others are, and were read later.
        rintro other ⟨i, valid, rfl⟩ different
        have apart : i ≠ synch.swap := by
          rintro rfl
          exact different rfl
        refine ⟨(found _).mpr (.inr ⟨i, apart, valid, rfl⟩), _, recorded.times i valid, ?_⟩
        have first := recorded.swap_first i
        omega

end SynchDisk

/--
The cache replaces sensibly exactly if it is full or a free slot comes first in the search.

The search goes by the times that the slots have from earlier reads, those of free slots included.
-/
theorem diskCache_replaces_iff (disk : Disk)
    (uninitialised : Vector DiskCacheEntry diskCacheSize) (requests : List (Int × DiskRequest))
    (synch : SynchDisk)
    (reached : replay SynchDisk.step (.new disk uninitialised) requests = some synch)
    (totalTicks sectorNumber : Int) (missed : synch.lookup sectorNumber = none) (data : Sector)
    (after : SynchDisk) (read : synch.readSector totalTicks sectorNumber = some (data, after)) :
    synch.ReplacesSensibly after requests sectorNumber ↔
      (∀ i, synch.Valid i) ∨ synch.SparesValid := by
  have recorded := SynchDisk.recorded_of_replay reached
  rcases SynchDisk.readSector_some read with ⟨index, found, -⟩ | ⟨absent, rfl⟩
  · rw [missed] at found
    cases found
  · exact recorded.replaces_iff absent totalTicks data

/-- While the slots have been free from the start, the next sector replaces no other. -/
theorem diskCache_replaces_third : ∃ synch data after,
    replay SynchDisk.step
      (.new (fun _ => .replicate sectorSize 7)
        (.replicate diskCacheSize ⟨0, 0, 0, 0, .replicate sectorSize 9⟩))
      [(10, .read 1), (20, .read 2)] = some synch ∧
    synch.readSector 30 3 = some (data, after) ∧
    synch.ReplacesSensibly after [(10, .read 1), (20, .read 2)] 3 := by
  -- The cache is computed after two reads.
  have evaluated : ((replay SynchDisk.step
      (.new (fun _ => .replicate sectorSize 7)
        (.replicate diskCacheSize ⟨0, 0, 0, 0, .replicate sectorSize 9⟩))
      [(10, .read 1), (20, .read 2)]).bind fun synch => (synch.readSector 30 3).map fun _ =>
        (synch.lookup 3, decide synch.SparesValid)) = some (none, true) := by decide +kernel
  obtain ⟨synch, reached, evaluated⟩ := Option.bind_eq_some_iff.mp evaluated
  obtain ⟨⟨data, after⟩, read, values⟩ := Option.map_eq_some_iff.mp evaluated
  simp only [Prod.mk.injEq, decide_eq_true_eq] at values
  exact ⟨synch, data, after, reached, read,
    (diskCache_replaces_iff _ _ _ synch reached 30 3 values.1 data after read).mpr (.inr values.2)⟩

/-- A write frees the slot of a sector, and the next sector replaces another one all the same. -/
theorem diskCache_dropsValid : ∃ synch data after,
    replay SynchDisk.step
      (.new (fun _ => .replicate sectorSize 7)
        (.replicate diskCacheSize ⟨0, 0, 0, 0, .replicate sectorSize 9⟩))
      [(10, .read 1), (20, .read 2), (30, .read 3), (40, .read 4),
        (50, .write 4 (.replicate sectorSize 8))] = some synch ∧
    synch.lookup 5 = none ∧ synch.readSector 60 5 = some (data, after) ∧
    ¬ synch.Valid 3 ∧ synch.Cached 1 ∧ ¬ after.Cached 1 ∧
    ¬ synch.ReplacesSensibly after [(10, .read 1), (20, .read 2), (30, .read 3), (40, .read 4),
      (50, .write 4 (.replicate sectorSize 8))] 5 := by
  -- Entry 3 is free, and yet reading sector 5 drops sector 1 from the cache.
  have evaluated : ((replay SynchDisk.step
      (.new (fun _ => .replicate sectorSize 7)
        (.replicate diskCacheSize ⟨0, 0, 0, 0, .replicate sectorSize 9⟩))
      [(10, .read 1), (20, .read 2), (30, .read 3), (40, .read 4),
        (50, .write 4 (.replicate sectorSize 8))]).bind fun synch =>
      (synch.readSector 60 5).map fun read => (synch.lookup 5, decide (synch.Valid 3),
        decide (synch.Cached 1), decide (read.2.Cached 1))) = some (none, false, true, false) := by
    decide +kernel
  obtain ⟨synch, reached, evaluated⟩ := Option.bind_eq_some_iff.mp evaluated
  obtain ⟨⟨data, after⟩, read, values⟩ := Option.map_eq_some_iff.mp evaluated
  simp only [Prod.mk.injEq, decide_eq_true_eq, decide_eq_false_iff_not] at values
  -- These values show what was dropped.
  obtain ⟨missed, invalid, cached, dropped⟩ := values
  exact ⟨synch, data, after, reached, missed, read, invalid, cached, dropped, fun sensible =>
    dropped ((sensible.free ⟨3, invalid⟩).2 1 cached)⟩

end Nachos
