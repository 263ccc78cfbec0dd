import Mathlib.Data.Nat.Bitwise
import Mathlib.Tactic.IntervalCases
import Nachos.Theory.Bytes

/-! The four bytes of a word, and words that are merged from the bytes of two others. -/

namespace Nachos

/-- The byte at a place of a word, from the least significant one. -/
def lane (value : Word) (q : Nat) : Byte := value.extractLsb' (8 * q) 8

/-- The bits of a byte are those of the word. -/
theorem getLsbD_lane (value : Word) (q : Nat) {j : Nat} (inside : j < 8) :
    (lane value q).getLsbD j = value.getLsbD (8 * q + j) := by
  simp [lane, inside]

/-- The bytes that spell a word are its lanes. -/
theorem getD_leBytes_lane (value : Word) {q : Nat} (inside : q < 4) :
    (leBytes 4 value.toNat).getD q 0 = lane value q := by
  apply BitVec.eq_of_toNat_eq
  rw [lane, BitVec.extractLsb'_toNat, Nat.shiftRight_eq_div_pow]
  interval_cases q
  all_goals simp [leBytes, Nat.div_div_eq_div_mul]

/-- A word is known by its four bytes. -/
theorem eq_of_lanes {value other : Word} (same : ∀ q < 4, lane value q = lane other q) :
    value = other := by
  apply BitVec.eq_of_getLsbD_eq
  intro i inside
  -- Each bit is one of the byte that it is in.
  have bit := congrArg (fun byte => BitVec.getLsbD byte (i % 8)) (same (i / 8) (by omega))
  rw [getLsbD_lane _ _ (Nat.mod_lt i (by decide)), getLsbD_lane _ _ (Nat.mod_lt i (by decide)),
    Nat.div_add_mod] at bit
  exact bit

/-- The lanes of the word that four bytes spell are the bytes. -/
theorem lane_leNat {bytes : List Byte} (four : bytes.length = 4) {q : Nat} (inside : q < 4) :
    lane (BitVec.ofNat 32 (leNat bytes)) q = bytes.getD q 0 := by
  have small : leNat bytes < 2 ^ 32 := by
    have bound := leNat_lt bytes
    rw [four] at bound
    exact bound
  have spelled := leBytes_leNat bytes
  rw [← getD_leBytes_lane _ inside, BitVec.toNat_ofNat, Nat.mod_eq_of_lt small, ← four, spelled]

/-- A word shifted to the left over the low bytes of another one. -/
def mergeLow (s : Nat) (new old : Word) : Word :=
  (old &&& BitVec.ofNat 32 (2 ^ (8 * s) - 1)) ||| (new <<< (8 * s))

/-- A word shifted to the right under the high bytes of another one. -/
def mergeHigh (s : Nat) (new old : Word) : Word :=
  (old &&& ~~~BitVec.ofNat 32 (2 ^ (32 - 8 * s) - 1)) |||
    (new.sshiftRight (8 * s) &&& BitVec.ofNat 32 (2 ^ (32 - 8 * s) - 1))

/-- The bits of a mask of low bits. -/
theorem getLsbD_mask (n i : Nat) (inside : i < 32) :
    (BitVec.ofNat 32 (2 ^ n - 1)).getLsbD i = decide (i < n) := by
  rw [BitVec.getLsbD_ofNat, Nat.testBit_two_pow_sub_one, decide_eq_true inside, Bool.true_and]

/-- The low bytes are those of the old word, and the others come from the new one. -/
theorem lane_mergeLow (s : Nat) (new old : Word) {q : Nat} (inside : q < 4) :
    lane (mergeLow s new old) q = if s ≤ q then lane new (q - s) else lane old q := by
  apply BitVec.eq_of_getLsbD_eq
  intro j bit
  have known : 8 * q + j < 32 := by omega
  rw [getLsbD_lane _ _ bit, mergeLow, BitVec.getLsbD_or, BitVec.getLsbD_and,
    getLsbD_mask _ _ known, BitVec.getLsbD_shiftLeft]
  -- The mask keeps the bytes below, and the shift leaves zeros there.
  by_cases shifted : s ≤ q
  · have past : ¬ 8 * q + j < 8 * s := by omega
    have place : 8 * q + j - 8 * s = 8 * (q - s) + j := by omega
    rw [if_pos shifted, getLsbD_lane _ _ bit, place]
    simp [past, known]
  · have before : 8 * q + j < 8 * s := by omega
    rw [if_neg shifted, getLsbD_lane _ _ bit]
    simp [before]

/-- The high bytes are those of the old word, and the others come from the new one. -/
theorem lane_mergeHigh (s : Nat) (new old : Word) {q : Nat} (inside : q < 4) :
    lane (mergeHigh s new old) q = if q + s ≤ 3 then lane new (q + s) else lane old q := by
  apply BitVec.eq_of_getLsbD_eq
  intro j bit
  have known : 8 * q + j < 32 := by omega
  rw [getLsbD_lane _ _ bit, mergeHigh, BitVec.getLsbD_or, BitVec.getLsbD_and, BitVec.getLsbD_and,
    BitVec.getLsbD_not, getLsbD_mask _ _ known, BitVec.getLsbD_sshiftRight]
  -- The mask keeps the bytes above, and cuts off what the sign has shifted in.
  by_cases shifted : q + s ≤ 3
  · have within : 8 * q + j < 32 - 8 * s := by omega
    have reached : 8 * s + (8 * q + j) < 32 := by omega
    have place : 8 * s + (8 * q + j) = 8 * (q + s) + j := by omega
    have low : ¬ 32 ≤ 8 * q + j := by omega
    rw [if_pos shifted, getLsbD_lane _ _ bit, if_pos reached, place]
    simp [within, low]
  · have past : ¬ 8 * q + j < 32 - 8 * s := by omega
    rw [if_neg shifted, getLsbD_lane _ _ bit]
    simp [past, known]

/-- A word that is not shifted covers the old one. -/
theorem mergeLow_zero (new old : Word) : mergeLow 0 new old = new := by
  apply eq_of_lanes
  intro q inside
  rw [lane_mergeLow 0 new old inside, if_pos (Nat.zero_le q), Nat.sub_zero]

/-- A word that is not shifted covers the old one, from the other side as well. -/
theorem mergeHigh_zero (new old : Word) : mergeHigh 0 new old = new := by
  apply eq_of_lanes
  intro q inside
  rw [lane_mergeHigh 0 new old inside, if_pos (by omega), Nat.add_zero]

end Nachos
