import Mathlib

/-! When half-open intervals of integers make up a single one. -/

namespace Nachos

section Interval

variable {ι : Type*} {start stop : ι → Int} {low high : Int}

/-- The intervals stay within one interval, reach its upper end, and leave no gap in it. -/
structure Spans (start stop : ι → Int) (low high : Int) : Prop where
  within : ∀ i, start i < stop i → low ≤ start i ∧ stop i ≤ high
  reaches : low < high → ∃ i, start i < stop i ∧ stop i = high
  gapless : ∀ i, start i < stop i → start i = low ∨ ∃ j, start j < start i ∧ start i ≤ stop j

/-- An interval without points is made up of intervals without points, wherever it begins. -/
theorem spans_empty_iff : Spans start stop low low ↔ ∀ i, stop i ≤ start i := by
  constructor
  · intro spans i
    by_contra some
    obtain ⟨above, below⟩ := spans.within i (by omega)
    omega
  · intro empty
    refine ⟨fun i some => ?_, fun some => absurd some (Int.lt_irrefl _), fun i some => ?_⟩
    · exact absurd some (Int.not_lt.mpr (empty i))
    · exact absurd some (Int.not_lt.mpr (empty i))

/-- Intervals without a gap cover everything below the end of any of them. -/
theorem Spans.covers (spans : Spans start stop low high) {point : Int} (above : low ≤ point) :
    ∀ (distance : Nat) (i : ι), (start i - low).toNat = distance → start i < stop i →
      point < stop i → ∃ j, start j ≤ point ∧ point < stop j := by
  -- An interval that begins above the point is followed down to one that begins lower.
  intro distance
  induction distance using Nat.strong_induction_on with
  | _ distance ih =>
    intro i far some below
    by_cases reached : start i ≤ point
    · exact ⟨i, reached, below⟩
    · rcases spans.gapless i some with least | ⟨j, lower, touches⟩
      · omega
      · have next := (spans.within j (by omega)).1
        exact ih (start j - low).toNat (by omega) j rfl (by omega) (by omega)

/-- Intervals make up a single one exactly if they stay within it, reach its end and have no gap. -/
theorem iUnion_Ico_eq_iff :
    (⋃ i, Set.Ico (start i) (stop i)) = Set.Ico low high ↔ Spans start stop low high := by
  constructor
  · intro same
    have covered : ∀ point, (∃ i, start i ≤ point ∧ point < stop i) ↔
        low ≤ point ∧ point < high := fun point => by
      rw [← Set.mem_Ico, ← same, Set.mem_iUnion]
      exact Iff.rfl
    refine ⟨fun i some => ⟨?_, ?_⟩, fun some => ?_, fun i some => ?_⟩
    · exact ((covered (start i)).mp ⟨i, Int.le_refl _, some⟩).1
    · have last := ((covered (stop i - 1)).mp ⟨i, by omega, by omega⟩).2
      omega
    · obtain ⟨i, begins, ends⟩ := (covered (high - 1)).mpr ⟨by omega, by omega⟩
      have last := ((covered (stop i - 1)).mp ⟨i, by omega, by omega⟩).2
      exact ⟨i, by omega, by omega⟩
    · -- The point below the interval is in another one, unless the interval is the lowest.
      by_cases least : start i = low
      · exact .inl least
      · have above := ((covered (start i)).mp ⟨i, Int.le_refl _, some⟩)
        obtain ⟨j, begins, ends⟩ := (covered (start i - 1)).mpr ⟨by omega, by omega⟩
        exact .inr ⟨j, by omega, by omega⟩
  · intro spans
    apply Set.Subset.antisymm
    · rintro point inside
      obtain ⟨i, begins, ends⟩ := Set.mem_iUnion.mp inside
      obtain ⟨above, below⟩ := spans.within i (by omega)
      exact ⟨by omega, by omega⟩
    · rintro point ⟨above, below⟩
      obtain ⟨i, some, top⟩ := spans.reaches (by omega)
      obtain ⟨j, begins, ends⟩ := spans.covers above _ i rfl some (by omega)
      exact Set.mem_iUnion.mpr ⟨j, begins, ends⟩

end Interval

end Nachos
