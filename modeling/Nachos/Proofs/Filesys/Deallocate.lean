import Nachos.Proofs.Filesys.WriteAt

/-! Giving the sectors of a file back: which bits of the map are cleared. -/

namespace Nachos

/-- The map in which these bits have been cleared. -/
structure Bitmap.Cleared (map map' : Bitmap) (gone : List Nat) : Prop where
  numBits : map'.numBits = map.numBits
  bit : ∀ j, map'.bit j = (map.bit j && !decide (j ∈ gone))

namespace Bitmap.Cleared

variable {map middle after : Bitmap} {first second : List Nat}

/-- Nothing is cleared in the map that stays. -/
theorem refl (map : Bitmap) : Cleared map map [] := ⟨rfl, fun j => by simp⟩

/-- Clearing goes on where it ended. -/
theorem trans (front : Cleared map middle first) (back : Cleared middle after second) :
    Cleared map after (first ++ second) := by
  refine ⟨back.numBits.trans front.numBits, fun j => ?_⟩
  rw [back.bit, front.bit]
  simp only [List.mem_append, Bool.decide_or, Bool.not_or, Bool.and_assoc]

end Bitmap.Cleared

/-- Clearing one bit in range clears that bit. -/
theorem Bitmap.clear_cleared {map : Bitmap} {s : Int} (inRange : map.InRange s) :
    ∃ map', map.clear s = some map' ∧ Cleared map map' [s.toNat] := by
  obtain ⟨n, rfl⟩ := Int.eq_ofNat_of_zero_le inRange.1
  have small : n < map.numBits := Int.ofNat_lt.mp inRange.2
  refine ⟨_, map.clear_inRange small, rfl, fun j => ?_⟩
  rw [bit_clearBit _ small, Int.toNat_natCast, Bool.and_comm]
  simp only [List.mem_singleton, bne, beq_eq_decide]

namespace FileHeader

variable {disk : Disk} {hdr : FileHeader} {map : Bitmap}

/-- A sector is given back, if it has not been already. -/
theorem release_cleared {s : Int} (inRange : map.InRange s) :
    ∃ map', release map s = some map' ∧ Bitmap.Cleared map map' [s.toNat] := by
  -- The number is that of a bit.
  obtain ⟨n, rfl⟩ := Int.eq_ofNat_of_zero_le inRange.1
  have small : n < map.numBits := Int.ofNat_lt.mp inRange.2
  have tested : map.test (n : Int) = some (map.bit n) := map.test_inRange small
  unfold release
  rw [tested]
  -- A bit that is clear already is left alone.
  cases taken : map.bit n with
  -- A bit that is set is cleared.
  | true => exact Bitmap.clear_cleared inRange
  | false =>
    refine ⟨map, rfl, rfl, fun j => ?_⟩
    -- The bit itself is clear, and the others are not touched.
    by_cases same : j = n
    · rw [same, taken, Bool.false_and]
    · simp [same]

/-- Sectors are given back one after the other. -/
theorem foldlM_release (sectors : List Int) :
    ∀ {map : Bitmap}, (∀ s ∈ sectors, map.InRange s) →
      ∃ map', sectors.foldlM release map = some map' ∧
        Bitmap.Cleared map map' (sectors.map Int.toNat) := by
  -- The bits in range stay in range, since no number of bits changes.
  induction sectors with
  -- Nothing is given back.
  | nil => exact fun _ => ⟨_, rfl, .refl _⟩
  | cons s rest ih =>
    intro map inRange
    -- One sector, and then the rest.
    obtain ⟨middle, released, cleared⟩ := release_cleared (inRange s List.mem_cons_self)
    obtain ⟨after, others, cleared'⟩ := @ih middle fun t member => by
      unfold Bitmap.InRange
      rw [cleared.numBits]
      exact inRange t (List.mem_cons_of_mem _ member)
    refine ⟨after, ?_, cleared.trans cleared'⟩
    rw [List.foldlM_cons, released]
    exact others

/-- The direct slots are given back one after the other. -/
theorem deallocateDirect_cleared (indices : List Nat) :
    ∀ {hdr : FileHeader} {map : Bitmap}, indices.Nodup → (∀ i ∈ indices, i ≤ numDirect) →
      (∀ i ∈ indices, map.InRange (hdr.dataSector i)) →
      ∃ hdr' map', deallocateDirect indices hdr map = some (hdr', map') ∧
        hdr'.nsectors = hdr.nsectors ∧
        (∀ i, i ∉ indices → hdr'.dataSector i = hdr.dataSector i) ∧
        Bitmap.Cleared map map' (indices.map fun i => (hdr.dataSector i).toNat) := by
  -- The slots are different ones, so that emptying one does not touch those ahead.
  induction indices with
  -- No slots are left.
  | nil => exact fun _ _ _ => ⟨_, _, rfl, rfl, fun _ _ => rfl, .refl _⟩
  | cons i rest ih =>
    intro hdr map nodup direct inRange
    obtain ⟨new, nodup⟩ := List.nodup_cons.mp nodup
    have here := inRange i List.mem_cons_self
    -- The sector is the number of a bit.
    obtain ⟨n, same⟩ := Int.eq_ofNat_of_zero_le here.1
    have small : n < map.numBits := by
      have below := here.2
      rw [same] at below
      exact Int.ofNat_lt.mp below
    -- Whether the slot is emptied or not, the other ones are kept.
    obtain ⟨middle, next, step, count, kept, cleared⟩ : ∃ middle next,
        deallocateDirect (i :: rest) hdr map = deallocateDirect rest middle next ∧
        middle.nsectors = hdr.nsectors ∧ (∀ j, j ≠ i → middle.dataSector j = hdr.dataSector j) ∧
        Bitmap.Cleared map next [(hdr.dataSector i).toNat] := by
      obtain ⟨next, released, cleared⟩ := Bitmap.clear_cleared here
      have tested : map.test (hdr.dataSector i) = some (map.bit n) := by
        rw [same]
        exact map.test_inRange small
      -- The sector is marked: it is cleared, and the slot emptied.
      cases taken : map.bit n with
      | true =>
        refine ⟨hdr.setDataSector i 0, next, ?_, rfl, fun j other => ?_, cleared⟩
        · rw [deallocateDirect, tested, taken]
          simp [released]
        · rw [dataSector_setDataSector _ (direct i List.mem_cons_self), if_neg (Ne.symm other)]
      -- It is not marked, and the slot stays.
      | false =>
        refine ⟨hdr, map, by rw [deallocateDirect, tested, taken]; rfl, rfl, fun _ _ => rfl, rfl,
          fun j => ?_⟩
        by_cases equal : j = n
        · rw [equal, taken, Bool.false_and]
        · rw [same]
          simp [equal]
    have other : ∀ j ∈ rest, j ≠ i := fun j member equal => new (equal ▸ member)
    -- The rest of the slots name the same sectors as before.
    obtain ⟨hdr', map', later, count', kept', cleared'⟩ := @ih middle next nodup
      (fun j member => direct j (List.mem_cons_of_mem _ member)) fun j member => by
        unfold Bitmap.InRange
        rw [cleared.numBits, kept j (other j member)]
        exact inRange j (List.mem_cons_of_mem _ member)
    -- A slot outside is touched by neither part.
    refine ⟨hdr', map', step.trans later, count'.trans count, fun j outside => ?_, ?_⟩
    · rw [kept' j fun member => outside (List.mem_cons_of_mem _ member),
        kept j fun equal => outside (equal ▸ List.mem_cons_self)]
    · -- The bits are those of this slot and of the rest.
      have all := cleared.trans cleared'
      rwa [List.map_congr_left fun j member => by rw [kept j (other j member)]] at all

/-- Does the index sector have entries that are not in use? -/
abbrev PartIndexed (hdr : FileHeader) : Prop := numDirect < hdr.nsectors ∧ hdr.nsectors < 56

/-- A slot of a laid out header is a number of a sector of the disk, or 0. -/
theorem Laid.slot_inRange (laid : hdr.Laid disk) (all : map.numBits = numSectors) (j : Nat) :
    map.InRange (hdr.slot disk j) := by
  unfold Bitmap.InRange
  rw [all]
  by_cases empty : hdr.slot disk j = 0
  · rw [empty]
    decide
  · exact (laid.inRange j empty).1

/-- The part of `Deallocate` over the direct slots gives back those that are in use. -/
theorem Laid.usedDirect_mem (laid : hdr.Laid disk) (j : Nat) :
    j ∈ (hdr.usedDirect.map fun i => (hdr.dataSector i).toNat) ↔
      ∃ i < numDirect, hdr.slot disk i = j ∧ hdr.slot disk i ≠ 0 := by
  have counted := laid.counted
  -- The slots in front are those of the header itself.
  have slot : ∀ i < numDirect, hdr.slot disk i = hdr.dataSector i :=
    fun i direct => if_pos (le_of_lt direct)
  -- A direct slot is in use if the file has that many sectors.
  have used : ∀ i < numDirect, (hdr.slot disk i ≠ 0 ↔ i < hdr.nsectors.toNat) := by
    intro i direct
    rw [laid.used]
    unfold usedSlots
    split <;> omega
  unfold usedDirect
  rw [List.mem_map]
  constructor
  · -- A sector given back is in one of them.
    rintro ⟨i, member, same⟩
    have inside := List.mem_range.mp member
    have direct : i < numDirect := by omega
    have there := (used i direct).mpr (by omega)
    have nonneg := (laid.inRange i there).1.1
    rw [slot i direct] at nonneg
    exact ⟨i, direct, by rw [slot i direct]; omega, there⟩
  · -- The other way, a slot in use is given back.
    rintro ⟨i, direct, same, there⟩
    have inside := (used i direct).mp there
    refine ⟨i, List.mem_range.mpr (by omega), ?_⟩
    rw [← slot i direct]
    omega

/-- What the index part of `Deallocate` gives back: all entries, and the index sector. -/
def indexGone (disk : Disk) (hdr : FileHeader) : List Nat :=
  if hdr.nsectors ≤ numDirect then []
  else ((List.range numInDirect).map fun i => (hdr.slot disk (numDirect + 1 + i)).toNat) ++
    [(hdr.slot disk numDirect).toNat]

/-- The part of `Deallocate` over the index sector gives everything back that it holds. -/
theorem deallocateIndirect_finds (laid : hdr.Laid disk) {hdr' : FileHeader}
    (count : hdr'.nsectors = hdr.nsectors)
    (same : hdr'.dataSector numDirect = hdr.dataSector numDirect)
    (all : map.numBits = numSectors) : Fs.Finds disk (hdr'.deallocateIndirect map)
      fun map' => Bitmap.Cleared map map' (indexGone disk hdr) := by
  have counted := laid.counted
  unfold deallocateIndirect indexGone
  rw [count, same]
  -- Without an index sector there is nothing to do.
  by_cases few : hdr.nsectors ≤ numDirect
  · rw [if_neg (by omega), if_pos few]
    exact Fs.Finds.pure disk (.refl map)
  rw [if_pos (by omega), if_neg few]
  -- The index sector is read.
  have there := laid.index_used.mpr (by omega)
  obtain ⟨onDisk, -⟩ := laid.index_inRange there
  refine (readIndex_reads onDisk).bind ?_
  -- Its entries are the slots behind.
  have entries : (List.range numInDirect).map (disk (hdr.dataSector numDirect)).int =
      (List.range numInDirect).map fun i => hdr.slot disk (numDirect + 1 + i) := by
    apply List.map_congr_left
    intro i member
    have inside := List.mem_range.mp member
    have here := slot_indirect disk there inside
    rwa [List.getD_eq_getElem?_getD, List.getElem?_map, List.getElem?_range inside] at here
  -- They are given back one after the other.
  obtain ⟨middle, released, cleared⟩ := foldlM_release
    ((List.range numInDirect).map fun i => hdr.slot disk (numDirect + 1 + i)) 
    fun s member => by
      obtain ⟨i, -, rfl⟩ := List.mem_map.mp member
      exact laid.slot_inRange all _
  -- The index sector itself is given back last.
  have index : middle.InRange (hdr.slot disk numDirect) :=
    laid.slot_inRange (cleared.numBits.trans all) numDirect
  obtain ⟨after, last, cleared'⟩ := Bitmap.clear_cleared index
  rw [slot_index] at last
  rw [entries]
  -- Both parts together are what is gone.
  refine (Fs.Reads.ofOption disk released).bind ((Fs.Reads.ofOption disk last).finds ?_)
  have both := cleared.trans cleared'
  rwa [List.map_map] at both

/-- The index part gives back the slots from the index on, and sector 0 for an empty entry. -/
theorem Laid.indexGone_mem (laid : hdr.Laid disk) (j : Nat) : j ∈ indexGone disk hdr ↔
    (∃ i, numDirect ≤ i ∧ hdr.slot disk i = j ∧ hdr.slot disk i ≠ 0) ∨
      (j = 0 ∧ hdr.PartIndexed) := by
  have counted := laid.counted
  have direct : numDirect = 24 := rfl
  have indirect : numInDirect = 32 := rfl
  unfold indexGone
  -- A file without an index sector has no slot from there on.
  by_cases few : hdr.nsectors ≤ numDirect
  · rw [if_pos few]
    refine ⟨(nomatch ·), ?_⟩
    -- In a file that small nothing is gone.
    rintro (⟨i, behind, -, there⟩ | ⟨-, many, -⟩)
    · have := (laid.used i).mp there
      unfold usedSlots at this
      split at this <;> omega
    · omega
  rw [if_neg few]
  -- There is one slot more than sectors, that of the index.
  have used : usedSlots hdr.nsectors.toNat = hdr.nsectors.toNat + 1 := if_neg (by omega)
  have slots := laid.used
  rw [used] at slots
  -- Slots are sectors of the disk or zero.
  have nonneg : ∀ i, 0 ≤ hdr.slot disk i := by
    intro i
    by_cases empty : hdr.slot disk i = 0
    · omega
    · exact (laid.inRange i empty).1.1
  simp only [List.mem_append, List.mem_map, List.mem_range, List.mem_singleton]
  constructor
  · -- What is gone is an entry, or the index sector.
    rintro (⟨i, inside, rfl⟩ | rfl)
    · -- An entry that is empty gives sector zero.
      by_cases empty : hdr.slot disk (numDirect + 1 + i) = 0
      · have past : ¬ numDirect + 1 + i < hdr.nsectors.toNat + 1 := fun below =>
          (slots _).mpr below empty
        exact .inr ⟨by omega, by omega, by omega⟩
      · have := nonneg (numDirect + 1 + i)
        exact .inl ⟨_, by omega, by omega, empty⟩
    · -- The index sector is a slot in use.
      have there := (slots numDirect).mpr (by omega)
      have := nonneg numDirect
      exact .inl ⟨numDirect, le_refl _, by omega, there⟩
  · rintro (⟨i, behind, same, there⟩ | ⟨rfl, -, part⟩)
    · -- A slot in use is the index, or one of the entries.
      have inside := (slots i).mp there
      by_cases index : i = numDirect
      · subst index
        exact .inr (by omega)
      · refine .inl ⟨i - (numDirect + 1), by omega, ?_⟩
        rw [show numDirect + 1 + (i - (numDirect + 1)) = i by omega]
        omega
    · -- The entry behind the last one in use is empty.
      have empty : hdr.slot disk (numDirect + 1 + (numInDirect - 1)) = 0 := by
        by_contra there
        have := (slots _).mp there
        omega
      exact .inl ⟨numInDirect - 1, by decide, by rw [empty]; rfl⟩

/-- `Deallocate` gives back the slots in use, and sector 0 for every entry that is not in use. -/
theorem deallocate_finds (laid : hdr.Laid disk) (all : map.numBits = numSectors) :
    Fs.Finds disk (hdr.deallocate map) fun given => given.2.numBits = numSectors ∧
      ∀ j : Nat, given.2.bit j = true ↔ map.bit j = true ∧
        (∀ i, hdr.slot disk i = j → hdr.slot disk i = 0) ∧ ¬ (j = 0 ∧ hdr.PartIndexed) := by
  -- The slots that are emptied are direct ones.
  have direct : ∀ i ∈ hdr.usedDirect, i < numDirect := fun i member => by
    have := List.mem_range.mp member
    omega
  obtain ⟨hdr', middle, emptied, count, kept, cleared⟩ := deallocateDirect_cleared hdr.usedDirect
    List.nodup_range (fun i member => le_of_lt (direct i member)) fun i member => by
      have slot : hdr.slot disk i = hdr.dataSector i := if_pos (le_of_lt (direct i member))
      exact slot ▸ laid.slot_inRange all i
  -- The index sector is still named.
  have same : hdr'.dataSector numDirect = hdr.dataSector numDirect :=
    kept _ fun member => absurd (direct _ member) (lt_irrefl _)
  refine (Fs.Reads.ofOption disk emptied).bind ?_
  -- Its entries are given back after the direct slots.
  refine (deallocateIndirect_finds laid count same (cleared.numBits.trans all)).bind ?_
  intro map' cleared'
  have both := cleared.trans cleared'
  -- What is left is what was there, without both parts.
  refine Fs.Finds.pure disk ⟨both.numBits.trans all, fun j => ?_⟩
  rw [both.bit, Bool.and_eq_true, Bool.not_eq_true', decide_eq_false_iff_not, List.mem_append,
    laid.usedDirect_mem, laid.indexGone_mem]
  refine and_congr_right fun _ => ?_
  -- A bit survives if no slot in use has it, be it a direct one or one behind.
  constructor
  · intro gone
    -- The slot would be a direct one, or one behind.
    refine ⟨fun i same => ?_, fun part => gone (.inr (.inr part))⟩
    by_contra there
    rcases Nat.lt_or_ge i numDirect with front | behind
    · exact gone (.inl ⟨i, front, same, there⟩)
    · exact gone (.inr (.inl ⟨i, behind, same, there⟩))
  · -- A bit that goes would belong to a slot in use, or be bit 0.
    rintro ⟨empty, whole⟩ (⟨i, -, same, there⟩ | ⟨i, -, same, there⟩ | part)
    · exact there (empty i same)
    · exact there (empty i same)
    · exact whole part

end FileHeader

end Nachos
