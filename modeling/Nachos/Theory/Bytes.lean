import Mathlib.Algebra.Group.Int.Defs
import Mathlib.Algebra.Group.Nat.Defs
import Mathlib.Data.List.GetD
import Mathlib.Tactic.SplitIfs

/-! Bytes, little-endian numbers, and runs of data laid over longer ones. -/

namespace Nachos

/-- One byte. -/
abbrev Byte : Type := BitVec 8

/-- One 32-bit machine word. -/
abbrev Word : Type := BitVec 32

/-- The number whose little-endian digits are these bytes. -/
def leNat : List Byte → Nat
  | [] => 0
  | byte :: rest => byte.toNat + 256 * leNat rest

/-- The little-endian digits of a number, to a fixed width. -/
def leBytes : Nat → Nat → List Byte
  | 0, _ => []
  | width + 1, value => BitVec.ofNat 8 value :: leBytes width (value / 256)

@[simp] theorem length_leBytes (width value : Nat) : (leBytes width value).length = width := by
  induction width generalizing value with
  | zero => rfl
  | succ width ih => simp [leBytes, ih]

/-- The digits of a number give it back, as far as they reach. -/
theorem leNat_leBytes (width value : Nat) : leNat (leBytes width value) = value % 256 ^ width := by
  -- Each digit takes one factor of the base away.
  induction width generalizing value with
  | zero => simp [leBytes, leNat, Nat.mod_one]
  | succ width ih =>
    simp only [leBytes, leNat, ih, BitVec.toNat_ofNat]
    change value % 256 + 256 * (value / 256 % 256 ^ width) = value % 256 ^ (width + 1)
    rw [Nat.pow_succ', Nat.mod_mul]

/-- Bytes are the digits of the number they spell. -/
theorem leBytes_leNat (bytes : List Byte) : leBytes bytes.length (leNat bytes) = bytes := by
  induction bytes with
  | nil => rfl
  | cons byte rest ih =>
    have small := byte.isLt
    have digit : (byte.toNat + 256 * leNat rest) / 256 = leNat rest := by omega
    have low : BitVec.ofNat 8 (byte.toNat + 256 * leNat rest) = byte := by
      apply BitVec.eq_of_toNat_eq
      simp only [BitVec.toNat_ofNat]
      omega
    simp only [List.length_cons, leNat, leBytes, digit, low, ih]

/-- A number spelled by so many bytes is below that power of the base. -/
theorem leNat_lt (bytes : List Byte) : leNat bytes < 256 ^ bytes.length := by
  induction bytes with
  | nil => simp [leNat]
  | cons byte rest ih =>
    have small := byte.isLt
    rw [List.length_cons, Nat.pow_succ, leNat]
    omega

/-- The word at an offset of a record that lies in memory. -/
def wordAt (bytes : List Byte) (offset : Nat) : Word :=
  BitVec.ofNat 32 (leNat ((bytes.drop offset).take 4))

/-- The int at an offset of a record that lies in memory. -/
def intAt (bytes : List Byte) (offset : Nat) : Int := (wordAt bytes offset).toInt

/-- The bytes of an int. -/
def intBytes (value : Int) : List Byte := leBytes 4 (BitVec.ofInt 32 value).toNat

@[simp] theorem length_intBytes (value : Int) : (intBytes value).length = 4 := length_leBytes 4 _

/-- The numbers that an int can hold. -/
abbrev InInt (value : Int) : Prop := -2 ^ 31 ≤ value ∧ value < 2 ^ 31

/-- What follows a word does not matter to it. -/
theorem wordAt_append_left {front : List Byte} {offset : Nat} (inside : offset + 4 ≤ front.length)
    (rest : List Byte) : wordAt (front ++ rest) offset = wordAt front offset := by
  unfold wordAt
  rw [List.drop_append_of_le_length (by omega), List.take_append_of_le_length]
  rw [List.length_drop]
  omega

/-- An int that fits comes back from its bytes. -/
theorem bmod_of_inInt {value : Int} (small : InInt value) : value.bmod (2 ^ 32) = value :=
  Int.bmod_eq_of_le (by have := small.1; omega) (by have := small.2; omega)

/-- Every word fits an int. -/
theorem inInt_toInt (word : Word) : InInt word.toInt :=
  ⟨BitVec.le_toInt word, BitVec.toInt_lt⟩

/-- What is read as an int fits. -/
theorem inInt_intAt (bytes : List Byte) (offset : Nat) : InInt (intAt bytes offset) :=
  inInt_toInt _

/-- What an int holds of a number fits. -/
theorem inInt_bmod (value : Int) : InInt (value.bmod (2 ^ 32)) := by
  rw [← BitVec.toInt_ofInt]
  exact inInt_toInt _

/-- The bytes that a number starts with give back what an int holds of it. -/
theorem intAt_intBytes_bmod (value : Int) (rest : List Byte) :
    intAt (intBytes value ++ rest) 0 = value.bmod (2 ^ 32) := by
  have digits : leNat (intBytes value) = (BitVec.ofInt 32 value).toNat := by
    unfold intBytes
    rw [leNat_leBytes]
    exact Nat.mod_eq_of_lt (BitVec.ofInt 32 value).isLt
  have held : (intBytes value ++ rest).take 4 = intBytes value := by
    rw [List.take_append_of_le_length (by simp), List.take_of_length_le (by simp)]
  simp only [intAt, wordAt, List.drop_zero, held, digits, BitVec.ofNat_toNat, BitVec.setWidth_eq]
  exact BitVec.toInt_ofInt value

/-- An int that starts where its bytes do. -/
theorem intAt_intBytes {value : Int} (small : InInt value) (rest : List Byte) :
    intAt (intBytes value ++ rest) 0 = value := by
  rw [intAt_intBytes_bmod, bmod_of_inInt small]

/-- What an int among others holds, each in its four bytes. -/
theorem intAt_flatMap_intBytes_bmod (ints : List Int) (rest : List Byte) : ∀ i, i < ints.length →
    intAt (ints.flatMap intBytes ++ rest) (4 * i) = (ints.getD i 0).bmod (2 ^ 32) := by
  -- The ints before the one looked for take up four bytes each.
  induction ints with
  | nil => exact fun _ outside => absurd outside (Nat.not_lt_zero _)
  | cons first others ih =>
    intro i inside
    cases i with
    | zero =>
      rw [List.flatMap_cons, List.append_assoc]
      exact intAt_intBytes_bmod first _
    | succ i =>
      have skipped : ∀ tail : List Byte, (intBytes first ++ tail).drop (4 * (i + 1)) =
          tail.drop (4 * i) := by
        intro tail
        have past : 4 * (i + 1) = (intBytes first).length + 4 * i := by
          rw [length_intBytes]
          omega
        rw [past, List.drop_length_add_append]
      rw [List.getD_cons_succ, ← ih i (by simpa using inside)]
      simp only [intAt, wordAt, List.flatMap_cons, List.append_assoc, skipped]

/-- An int among others, each in its four bytes. -/
theorem intAt_flatMap_intBytes (ints : List Int) (small : ∀ value ∈ ints, InInt value)
    (rest : List Byte) (i : Nat) (inside : i < ints.length) :
    intAt (ints.flatMap intBytes ++ rest) (4 * i) = ints.getD i 0 := by
  rw [intAt_flatMap_intBytes_bmod ints rest i inside]
  apply bmod_of_inInt
  rw [List.getD_eq_getElem ints 0 inside]
  exact small _ (List.getElem_mem inside)

section Splice

variable {α : Type}

/-- Lay `patch` over `base` at a position, filling a gap before it with `pad`. -/
def splice (pad : α) (base : List α) (position : Nat) (patch : List α) : List α :=
  base.take position ++ List.replicate (position - base.length) pad ++ patch ++
    base.drop (position + patch.length)

/-- The result reaches as far as the longer of the two. -/
@[simp] theorem length_splice (pad : α) (base : List α) (position : Nat) (patch : List α) :
    (splice pad base position patch).length = max base.length (position + patch.length) := by
  simp only [splice, List.length_append, List.length_take, List.length_replicate, List.length_drop]
  omega

/-- A position under the patch reads the patch, and every other one reads what was there. -/
theorem getD_splice (pad : α) (base : List α) (position : Nat) (patch : List α) (k : Nat) :
    (splice pad base position patch).getD k pad =
      if position ≤ k ∧ k < position + patch.length then patch.getD (k - position) pad
      else base.getD k pad := by
  -- The result has four parts: the kept front, the gap, the patch and the kept tail.
  simp only [splice, List.getD_eq_getElem?_getD, List.getElem?_append, List.length_append,
    List.length_take, List.length_replicate, List.getElem?_take, List.getElem?_replicate,
    List.getElem?_drop]
  rcases Nat.lt_or_ge k base.length with inside | past
  · split_ifs <;> first | rfl | omega | (congr 2; omega)
  · -- Past the base there is the gap, which reads as padding, or nothing at all.
    rw [List.getElem?_eq_none past]
    split_ifs <;> first | rfl | omega | (congr 2; omega) | skip
    rw [List.getElem?_eq_none (by omega)]

/-- A part that the patch does not touch is as it was. -/
theorem take_drop_splice_apart {pad : α} {base patch : List α} {position skip count : Nat}
    (inside : position + patch.length ≤ base.length)
    (apart : skip + count ≤ position ∨ position + patch.length ≤ skip) :
    ((splice pad base position patch).drop skip).take count = (base.drop skip).take count := by
  apply List.ext_getElem?
  intro k
  rw [List.getElem?_take, List.getElem?_take, List.getElem?_drop, List.getElem?_drop]
  split
  · rename_i within
    -- A byte inside the base is not patched, and one outside is outside before and after.
    by_cases there : skip + k < base.length
    · have here := getD_splice pad base position patch (skip + k)
      have long : skip + k < (splice pad base position patch).length := by
        rw [length_splice]
        omega
      rw [if_neg (by omega), List.getD_eq_getElem?_getD, List.getD_eq_getElem?_getD,
        List.getElem?_eq_getElem there, List.getElem?_eq_getElem long, Option.getD_some,
        Option.getD_some] at here
      rw [List.getElem?_eq_getElem there, List.getElem?_eq_getElem long, here]
    · rw [List.getElem?_eq_none (by rw [length_splice]; omega), List.getElem?_eq_none (by omega)]
  · rfl

/-- The part that the patch covers is the patch. -/
theorem take_drop_splice_same {pad : α} {base patch : List α} {position : Nat}
    (inside : position + patch.length ≤ base.length) :
    ((splice pad base position patch).drop position).take patch.length = patch := by
  have front : (base.take position).length = position := by
    rw [List.length_take]
    omega
  unfold splice
  rw [show position - base.length = 0 by omega, List.replicate_zero, List.append_nil,
    List.append_assoc, List.drop_append_of_le_length (by omega),
    List.drop_of_length_le (by omega), List.nil_append, List.take_append_of_le_length (by omega),
    List.take_length]

end Splice

/-- An int that the four bytes at its offset spell. -/
theorem intAt_of_bytes {bytes : List Byte} {offset : Nat} {value : Int} (small : InInt value)
    (spelled : (bytes.drop offset).take 4 = intBytes value) : intAt bytes offset = value := by
  have start := intAt_intBytes small []
  rw [List.append_nil] at start
  have whole : ((intBytes value).drop 0).take 4 = intBytes value :=
    List.take_of_length_le (by simp)
  unfold intAt wordAt at start ⊢
  rwa [spelled, ← whole]

end Nachos
