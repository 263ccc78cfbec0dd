import Mathlib.Data.Finset.Card
import Mathlib.Data.Finset.Range
import Nachos.Lib.Bitmap

/-! Laws of bitmaps: each operation changes one bit, and no assertion fails in range. -/

namespace Nachos

/-- Rounding up covers every number below the bound. -/
theorem div_lt_divRoundUp {i n s : Nat} (below : i < n) : i / s < divRoundUp n s := by
  -- The bound is a whole number of steps and, unless it is exact, one more.
  unfold divRoundUp
  rcases Nat.eq_zero_or_pos s with zero | positive
  · -- Division by zero gives zero on both sides.
    subst zero
    simp only [Nat.div_zero, Nat.mod_zero]
    split <;> omega
  have split := Nat.div_add_mod n s
  split
  · -- It is not exact, so that there is one more.
    have : i / s ≤ n / s := Nat.div_le_div_right (by omega)
    omega
  · -- It is exact, so the number is below a whole step.
    rename_i exact
    apply (Nat.div_lt_iff_lt_mul positive).mpr
    rw [Nat.add_zero, Nat.mul_comm]
    omega

namespace Bitmap

/-- A bit is the matching bit of the word that holds it. -/
theorem bit_eq_getLsbD (bitmap : Bitmap) (which : Nat) :
    bitmap.bit which = (bitmap.word which).getLsbD (which % bitsInWord) := by
  -- Masking leaves a nonzero word exactly when the masked bit is set.
  have small : which % bitsInWord < 32 := Nat.mod_lt _ (by decide)
  unfold bit mask
  rw [← BitVec.twoPow_eq, BitVec.and_twoPow]
  cases bitmap.word which |>.getLsbD (which % bitsInWord) with
  -- The bit is not set, and the masked word is zero.
  | false => simp
  | true =>
    simp only [if_true, bne_iff_ne, ne_eq]
    -- A masked word with the bit is not zero.
    intro zero
    have := congrArg (fun w : Word => w.getLsbD (which % bitsInWord)) zero
    simp [BitVec.getLsbD_twoPow] at this
    omega

/-- A replaced word is the one that holds the bit, and the others stay. -/
theorem word_setWord (bitmap : Bitmap) {which : Nat} (inRange : which < bitmap.numBits)
    (word : Word) (other : Nat) : (bitmap.setWord which word).word other =
      if other / bitsInWord = which / bitsInWord then word else bitmap.word other := by
  have held : which / bitsInWord < bitmap.map.length :=
    bitmap.words ▸ div_lt_divRoundUp inRange
  unfold setWord Bitmap.word
  -- The word of a bit in range is in the map, so that it is really replaced.
  by_cases same : other / bitsInWord = which / bitsInWord
  · simp [same, List.getD_eq_getElem?_getD, held]
  · simp [same, List.getD_eq_getElem?_getD, List.getElem?_set_ne (Ne.symm same)]

/-- Two bit numbers that share a word and a place in it are the same. -/
theorem eq_of_same_place {i j : Nat} (word : i / bitsInWord = j / bitsInWord)
    (place : i % bitsInWord = j % bitsInWord) : i = j := by
  rw [← Nat.div_add_mod i bitsInWord, ← Nat.div_add_mod j bitsInWord, word, place]

/-- The mask of a bit has that bit, and no other of the same word. -/
theorem getLsbD_mask {which other : Nat} (word : other / bitsInWord = which / bitsInWord) :
    (mask which).getLsbD (other % bitsInWord) = (other == which) := by
  have small : other % bitsInWord < 32 := Nat.mod_lt _ (by decide)
  have place : which % bitsInWord < 32 := Nat.mod_lt _ (by decide)
  rw [mask, ← BitVec.twoPow_eq, BitVec.getLsbD_twoPow]
  by_cases same : other = which
  · subst same
    simp [place]
  · have apart : which % bitsInWord ≠ other % bitsInWord := fun h =>
      same (eq_of_same_place word h.symm)
    simp [same, apart]

/-- The bits of a replaced word are the bits of the new one. -/
theorem bit_setWord (bitmap : Bitmap) {which : Nat} (inRange : which < bitmap.numBits) (word : Word)
    (other : Nat) : (bitmap.setWord which word).bit other =
      if other / bitsInWord = which / bitsInWord then word.getLsbD (other % bitsInWord)
      else bitmap.bit other := by
  rw [bit_eq_getLsbD, word_setWord bitmap inRange]
  split
  · rfl
  · rw [bit_eq_getLsbD]

/-- Setting a bit sets that bit and keeps the others. -/
@[simp] theorem bit_setBit (bitmap : Bitmap) {which : Nat} (inRange : which < bitmap.numBits)
    (other : Nat) : (bitmap.setBit which).bit other = (other == which || bitmap.bit other) := by
  rw [setBit, bit_setWord bitmap inRange]
  split
  · rename_i word
    have held : bitmap.word which = bitmap.word other := by unfold Bitmap.word; rw [word]
    rw [BitVec.getLsbD_or, getLsbD_mask word, held, ← bit_eq_getLsbD, Bool.or_comm]
  · rename_i word
    have different : other ≠ which := fun h => word (h ▸ rfl)
    simp [different]

/-- Clearing a bit clears that bit and keeps the others. -/
@[simp] theorem bit_clearBit (bitmap : Bitmap) {which : Nat} (inRange : which < bitmap.numBits)
    (other : Nat) : (bitmap.clearBit which).bit other = (other != which && bitmap.bit other) := by
  have small : other % bitsInWord < 32 := Nat.mod_lt _ (by decide)
  rw [clearBit, bit_setWord bitmap inRange]
  split
  · rename_i word
    have held : bitmap.word which = bitmap.word other := by unfold Bitmap.word; rw [word]
    rw [BitVec.getLsbD_and, BitVec.getLsbD_not, getLsbD_mask word, held, ← bit_eq_getLsbD,
      Bool.and_comm]
    simp [small, bne]
  · rename_i word
    have different : other ≠ which := fun h => word (h ▸ rfl)
    simp [different]

@[simp] theorem numBits_setBit (bitmap : Bitmap) (which : Nat) :
    (bitmap.setBit which).numBits = bitmap.numBits := rfl

@[simp] theorem numBits_clearBit (bitmap : Bitmap) (which : Nat) :
    (bitmap.clearBit which).numBits = bitmap.numBits := rfl

@[simp] theorem numBits_new (numItems : Nat) : (new numItems).numBits = numItems := rfl

/-- In a new bitmap every bit is clear. -/
@[simp] theorem bit_new (numItems which : Nat) : (new numItems).bit which = false := by
  have zero : (new numItems).word which = 0 := by
    simp only [word, new, List.getD_eq_getElem?_getD, List.getElem?_replicate]
    split <;> rfl
  simp [bit, zero]

/-- Testing a bit in range answers with the bit. -/
theorem test_inRange (bitmap : Bitmap) {which : Nat} (inRange : which < bitmap.numBits) :
    bitmap.test which = some (bitmap.bit which) := by
  simp [test, inRange]

/-- Marking a bit in range sets it, and neither assertion fails. -/
theorem mark_inRange (bitmap : Bitmap) {which : Nat} (inRange : which < bitmap.numBits) :
    bitmap.mark which = some (bitmap.setBit which) := by
  have marked : (bitmap.setBit which).test which = some true := by
    rw [test_inRange (bitmap.setBit which) inRange, bit_setBit _ inRange]
    simp
  simp [mark, inRange, marked]

/-- Clearing a bit in range clears it, and neither assertion fails. -/
theorem clear_inRange (bitmap : Bitmap) {which : Nat} (inRange : which < bitmap.numBits) :
    bitmap.clear which = some (bitmap.clearBit which) := by
  have cleared : (bitmap.clearBit which).test which = some false := by
    rw [test_inRange (bitmap.clearBit which) inRange, bit_clearBit _ inRange]
    simp
  simp [clear, inRange, cleared]

/-- The loop of `FindAndSet` takes the first clear bit it comes to. -/
theorem findAndSetFrom_eq (bitmap : Bitmap) {indices : List Nat}
    (inRange : ∀ i ∈ indices, i < bitmap.numBits) :
    bitmap.findAndSetFrom indices = some (match indices.find? fun i => !bitmap.bit i with
      | some i => (i, bitmap.setBit i)
      | none => (-1, bitmap)) := by
  -- By induction on the indices that are left to try.
  induction indices with
  | nil => rfl
  | cons i rest ih =>
    have here := inRange i (by simp)
    have later := ih fun j member => inRange j (by simp [member])
    cases taken : bitmap.bit i <;>
      simp [findAndSetFrom, test_inRange _ here, mark_inRange _ here, taken, later]

/-- What `FindAndSet` can do: take the least clear bit, or find every bit set. -/
theorem findAndSet_cases (bitmap : Bitmap) :
    (∃ i, i < bitmap.numBits ∧ bitmap.bit i = false ∧ (∀ j < i, bitmap.bit j = true) ∧
      bitmap.findAndSet = some ((i : Int), bitmap.setBit i)) ∨
    ((∀ i < bitmap.numBits, bitmap.bit i = true) ∧ bitmap.findAndSet = some (-1, bitmap)) := by
  have every : ∀ i ∈ List.range bitmap.numBits, i < bitmap.numBits := by simp
  have found := bitmap.findAndSetFrom_eq every
  change bitmap.findAndSet = _ at found
  cases search : (List.range bitmap.numBits).find? fun i => !bitmap.bit i with
  -- The search stops at the first bit that is clear.
  | some i =>
    rw [search] at found
    obtain ⟨clear, member, before⟩ := List.find?_range_eq_some.mp search
    exact .inl ⟨i, by simpa using member, by simpa using clear, by simpa using before, found⟩
  -- It finds none, so all of them are set.
  | none =>
    rw [search] at found
    exact .inr ⟨by simpa using List.find?_eq_none.mp search, found⟩

/-- The numbers of the clear bits. -/
def clearBits (bitmap : Bitmap) : Finset Nat :=
  (Finset.range bitmap.numBits).filter fun i => bitmap.bit i = false

@[simp] theorem mem_clearBits (bitmap : Bitmap) (i : Nat) :
    i ∈ bitmap.clearBits ↔ i < bitmap.numBits ∧ bitmap.bit i = false := by
  simp [clearBits]

/-- `NumClear` counts the clear bits. -/
theorem numClear_eq_card (bitmap : Bitmap) : bitmap.numClear = bitmap.clearBits.card := by
  have listed : bitmap.clearBits =
      ((List.range bitmap.numBits).filter fun i => !bitmap.bit i).toFinset := by
    ext i
    simp
  rw [listed, List.toFinset_card_of_nodup (List.nodup_range.filter _),
    ← List.countP_eq_length_filter]
  rfl

/-- Setting a clear bit leaves one clear bit fewer. -/
theorem numClear_setBit (bitmap : Bitmap) {i : Nat} (inRange : i < bitmap.numBits)
    (clear : bitmap.bit i = false) : (bitmap.setBit i).numClear + 1 = bitmap.numClear := by
  -- The clear bits are those from before, without this one.
  have erased : (bitmap.setBit i).clearBits = bitmap.clearBits.erase i := by
    ext j
    by_cases same : j = i <;> simp [bit_setBit _ inRange, same]
  rw [numClear_eq_card, numClear_eq_card, erased]
  exact Finset.card_erase_add_one (by simp [inRange, clear])

/-- Clearing a set bit leaves one clear bit more. -/
theorem numClear_clearBit (bitmap : Bitmap) {i : Nat} (inRange : i < bitmap.numBits)
    (set : bitmap.bit i = true) : (bitmap.clearBit i).numClear = bitmap.numClear + 1 := by
  -- The clear bits are those from before, with this one.
  have inserted : (bitmap.clearBit i).clearBits = insert i bitmap.clearBits := by
    ext j
    by_cases same : j = i <;> simp [bit_clearBit _ inRange, same, inRange]
  rw [numClear_eq_card, numClear_eq_card, inserted]
  exact Finset.card_insert_of_notMem (by simp [set])

/-- No more bits are clear than there are. -/
theorem numClear_le (bitmap : Bitmap) : bitmap.numClear ≤ bitmap.numBits := by
  unfold numClear
  exact List.countP_le_length.trans_eq List.length_range

/-- In a new bitmap every bit is counted. -/
@[simp] theorem numClear_new (numItems : Nat) : (new numItems).numClear = numItems := by
  simp [numClear]

/-- Some bit is clear as long as the count is positive. -/
theorem exists_clear_of_numClear_pos (bitmap : Bitmap) (positive : 0 < bitmap.numClear) :
    ∃ i < bitmap.numBits, bitmap.bit i = false := by
  rw [numClear_eq_card, Finset.card_pos] at positive
  obtain ⟨i, member⟩ := positive
  exact ⟨i, by simpa using member⟩

/-- The map that is left when these numbers have been found and set, one after the other. -/
inductive Takes : Bitmap → List Nat → Bitmap → Prop
  | nil (bitmap : Bitmap) : Takes bitmap [] bitmap
  | cons {bitmap after : Bitmap} {i : Nat} {rest : List Nat} (inRange : i < bitmap.numBits)
    (clear : bitmap.bit i = false) (least : ∀ j < i, bitmap.bit j = true)
    (later : Takes (bitmap.setBit i) rest after) : Takes bitmap (i :: rest) after

/-- Finding more numbers after some goes on where they ended. -/
theorem Takes.append {bitmap middle after : Bitmap} {first second : List Nat}
    (front : Takes bitmap first middle) (back : Takes middle second after) :
    Takes bitmap (first ++ second) after := by
  induction front with
  | nil => exact back
  | cons inRange clear least _ ih => exact .cons inRange clear least (ih back)

/-- Finding numbers keeps the size of the map. -/
theorem Takes.numBits {bitmap after : Bitmap} {taken : List Nat}
    (takes : Takes bitmap taken after) : after.numBits = bitmap.numBits := by
  induction takes with
  | nil => rfl
  | cons _ _ _ _ ih => exact ih

/-- Each number found was clear and in range. -/
theorem Takes.clear {bitmap after : Bitmap} {taken : List Nat}
    (takes : Takes bitmap taken after) :
    ∀ i ∈ taken, i < bitmap.numBits ∧ bitmap.bit i = false := by
  induction takes with
  | nil => exact fun _ member => absurd member List.not_mem_nil
  | @cons bitmap _ i rest inRange clear _ _ ih =>
    intro j member
    rcases List.mem_cons.mp member with rfl | member
    · exact ⟨inRange, clear⟩
    · -- A number found later was clear even after the first one was set.
      obtain ⟨below, still⟩ := ih j member
      rw [bit_setBit _ inRange, Bool.or_eq_false_iff] at still
      exact ⟨below, still.2⟩

/-- No number is found twice. -/
theorem Takes.nodup {bitmap after : Bitmap} {taken : List Nat}
    (takes : Takes bitmap taken after) : taken.Nodup := by
  induction takes with
  | nil => exact List.nodup_nil
  | cons inRange _ _ later ih =>
    refine List.nodup_cons.mpr ⟨fun member => ?_, ih⟩
    have still := (later.clear _ member).2
    rw [bit_setBit _ inRange] at still
    simp at still

/-- The numbers found are set afterwards, and the other bits are as they were. -/
theorem Takes.bit {bitmap after : Bitmap} {taken : List Nat} (takes : Takes bitmap taken after)
    (j : Nat) : after.bit j = (decide (j ∈ taken) || bitmap.bit j) := by
  induction takes with
  | nil => simp
  | cons inRange _ _ _ ih =>
    rw [ih, bit_setBit _ inRange]
    simp only [List.mem_cons, Bool.decide_or, beq_eq_decide]
    rw [← Bool.or_assoc, Bool.or_comm (decide _) (decide (j = _))]

/-- Each number found leaves one clear bit fewer. -/
theorem Takes.numClear {bitmap after : Bitmap} {taken : List Nat}
    (takes : Takes bitmap taken after) : after.numClear + taken.length = bitmap.numClear := by
  induction takes with
  | nil => rfl
  | cons inRange clear _ _ ih =>
    have one := numClear_setBit _ inRange clear
    simp only [List.length_cons]
    omega

/-- The bits in front of all the numbers found were set, as the least clear one is found first. -/
theorem Takes.set_before {bitmap after : Bitmap} {taken : List Nat}
    (takes : Takes bitmap taken after) (some : taken ≠ []) {n : Nat} (behind : ∀ i ∈ taken, n ≤ i)
    {j : Nat} (before : j < n) : bitmap.bit j = true := by
  cases takes with
  | nil => exact absurd rfl some
  | cons _ _ least _ =>
    have first := behind _ List.mem_cons_self
    exact least j (by omega)

/-- As long as bits are clear, the next one can be found. -/
theorem findAndSet_takes (bitmap : Bitmap) (positive : 0 < bitmap.numClear) :
    ∃ i : Nat, bitmap.findAndSet = some ((i : Int), bitmap.setBit i) ∧
      Takes bitmap [i] (bitmap.setBit i) := by
  rcases bitmap.findAndSet_cases with ⟨i, inRange, clear, least, found⟩ | ⟨full, -⟩
  · exact ⟨i, found, .cons inRange clear least (.nil _)⟩
  · obtain ⟨i, inRange, clear⟩ := exists_clear_of_numClear_pos bitmap positive
    rw [full i inRange] at clear
    cases clear

/-- Without a clear bit there is nothing to find. -/
theorem findAndSet_full {bitmap : Bitmap} (full : bitmap.numClear = 0) :
    bitmap.findAndSet = some (-1, bitmap) := by
  rcases bitmap.findAndSet_cases with ⟨i, inRange, clear, -, -⟩ | ⟨-, found⟩
  · have one := numClear_setBit bitmap inRange clear
    omega
  · exact found

end Bitmap

end Nachos
