import Nachos.Machine.Mipssim
import Mathlib.Data.BitVec
import Mathlib.Tactic.Linarith
import Mathlib.Tactic.Ring

/-! The loop of shifts and additions computes the exact product. -/

namespace Nachos

/-- The number of 64 bits that a high and a low word make up. -/
def double (hi lo : Word) : BitVec 64 := hi ++ lo

/-- As a natural number, the two words are two digits. -/
theorem toNat_double (hi lo : Word) : (double hi lo).toNat = hi.toNat * 2 ^ 32 + lo.toNat := by
  rw [double, BitVec.toNat_append, ← Nat.shiftLeft_add_eq_or_of_lt lo.isLt, Nat.shiftLeft_eq]

/-- The carry out of the low words is there when their sum is below one of them. -/
theorem double_add (hi lo bHi bLo : Word) :
    double (hi + (if lo + bLo < bLo then 1 else 0) + bHi) (lo + bLo) =
      double hi lo + double bHi bLo := by
  have loSmall := lo.isLt
  have bLoSmall := bLo.isLt
  have one : (1 : Word).toNat = 1 := rfl
  have zero : (0 : Word).toNat = 0 := rfl
  apply BitVec.eq_of_toNat_eq
  rw [toNat_double, BitVec.toNat_add (double hi lo), toNat_double, toNat_double]
  by_cases carried : lo + bLo < bLo
  · -- The low words wrap around, by one of the high word.
    have wrapped := carried
    rw [BitVec.lt_def, BitVec.toNat_add] at wrapped
    rw [if_pos carried, BitVec.toNat_add, BitVec.toNat_add, BitVec.toNat_add]
    omega
  · -- The low words fit.
    have fits := carried
    rw [BitVec.lt_def, BitVec.toNat_add] at fits
    rw [if_neg carried, BitVec.toNat_add, BitVec.toNat_add, BitVec.toNat_add]
    omega

/-- The top bit of a word is set when the word is large. -/
theorem top_bit (value : Word) : value &&& 0x80000000 ≠ 0 ↔ 2 ^ 31 ≤ value.toNat := by
  have msb := BitVec.msb_eq_decide value
  have masked : value &&& 0x80000000 = if value.getLsbD 31 then BitVec.twoPow 32 31 else 0 :=
    BitVec.and_twoPow value 31
  have same : value.getLsbD 31 = value.msb := by
    rw [BitVec.msb_eq_getLsbD_last]
  rw [masked, same, msb]
  by_cases large : 2 ^ 31 ≤ value.toNat
  · rw [decide_eq_true large]
    exact iff_of_true (by decide) large
  · rw [decide_eq_false large]
    exact iff_of_false (fun set => set rfl) large

/-- The bit that leaves the low word enters the high one. -/
theorem double_shift (bHi bLo : Word) :
    double (bHi <<< 1 ||| if bLo &&& 0x80000000 ≠ 0 then 1 else 0) (bLo <<< 1) =
      double bHi bLo + double bHi bLo := by
  have hiSmall := bHi.isLt
  have loSmall := bLo.isLt
  have one : (1 : Word).toNat = 1 := rfl
  have zero : (0 : Word).toNat = 0 := rfl
  -- The low bit of the shifted word is free, so the bit that enters is added.
  have entered : ∀ bit : Word, bit.toNat < 2 →
      (bHi <<< 1 ||| bit).toNat = (2 * bHi.toNat + bit.toNat) % 2 ^ 32 := by
    intro bit one
    have free : (bHi <<< 1).toNat = (bHi.toNat % 2 ^ 31) <<< 1 := by
      rw [BitVec.toNat_shiftLeft, Nat.shiftLeft_eq, Nat.shiftLeft_eq]
      omega
    rw [BitVec.toNat_or, free, ← Nat.shiftLeft_add_eq_or_of_lt one, Nat.shiftLeft_eq]
    omega
  -- Both sides are below 2^64, so they can be compared as numbers.
  apply BitVec.eq_of_toNat_eq
  rw [toNat_double, BitVec.toNat_add, toNat_double, BitVec.toNat_shiftLeft, Nat.shiftLeft_eq]
  -- The bit that leaves the low word is the one that enters the high word.
  by_cases top : bLo &&& 0x80000000 ≠ 0
  · -- The top bit of the low word goes up.
    have large := (top_bit bLo).mp top
    rw [if_pos top, entered 1 (by decide)]
    omega
  · -- There is no bit that goes up.
    have small := mt (top_bit bLo).mpr top
    rw [if_neg top, entered 0 (by decide)]
    omega

/-- The two's complement of both words, with the carry between them. -/
theorem double_neg (hi lo : Word) :
    double (if ~~~lo + 1 = 0 then ~~~hi + 1 else ~~~hi) (~~~lo + 1) = - double hi lo := by
  have hiSmall := hi.isLt
  have loSmall := lo.isLt
  have one : (1 : Word).toNat = 1 := rfl
  -- The numbers are compared again.
  apply BitVec.eq_of_toNat_eq
  rw [toNat_double, BitVec.toNat_neg, toNat_double]
  -- The low word wraps only when it is zero, and the high word then takes the carry.
  by_cases wrapped : ~~~lo + 1 = 0
  · -- The low word was zero.
    have zero := congrArg BitVec.toNat wrapped
    rw [BitVec.toNat_add, BitVec.toNat_not] at zero
    rw [if_pos wrapped, BitVec.toNat_add, BitVec.toNat_add, BitVec.toNat_not, BitVec.toNat_not]
    rw [show (0 : Word).toNat = 0 from rfl] at zero
    omega
  · -- It was not, and there is no carry.
    have nonzero : (~~~lo + 1).toNat ≠ 0 := fun none => wrapped (BitVec.eq_of_toNat_eq none)
    rw [BitVec.toNat_add, BitVec.toNat_not] at nonzero
    rw [if_neg wrapped, BitVec.toNat_add, BitVec.toNat_not, BitVec.toNat_not]
    omega

/-- The lowest bit of a word is what is left over from halving it. -/
theorem toNat_lowBit (a : Word) : (a &&& 1).toNat = a.toNat % 2 := by
  rw [BitVec.toNat_and]
  exact Nat.and_two_pow_sub_one_eq_mod a.toNat 1

/-- A word is odd when its lowest bit is set. -/
theorem low_bit (a : Word) : a &&& 1 ≠ 0 ↔ a.toNat % 2 = 1 := by
  rw [Ne, ← BitVec.toNat_inj, toNat_lowBit]
  exact Nat.mod_two_ne_zero

/-- An odd factor of which no other bit is left is one. -/
theorem last_bit {a : Word} (odd : a &&& 1 ≠ 0) (rest : a &&& 0xfffffffe = 0) : a = 1 := by
  have parts : (a &&& 0xfffffffe) ||| (a &&& 1) = a := by
    rw [← BitVec.and_or_distrib_left]
    exact BitVec.and_allOnes
  have one : a &&& 1 = 1 := by
    apply BitVec.eq_of_toNat_eq
    rw [toNat_lowBit, (low_bit a).mp odd]
    rfl
  rw [rest, one] at parts
  exact parts.symm

/-- The bits of a factor that the later turns see, whatever its sign shifts in. -/
theorem shifted_bits (a : Word) {turns : Nat} (few : turns < 32) :
    (a.sshiftRight 1).toNat % 2 ^ turns = a.toNat / 2 % 2 ^ turns := by
  apply Nat.eq_of_testBit_eq
  intro i
  rw [Nat.testBit_mod_two_pow, Nat.testBit_mod_two_pow, ← BitVec.getLsbD,
    BitVec.getLsbD_sshiftRight, Nat.testBit_div_two]
  -- A bit that a later turn sees is not one that the sign has shifted in.
  by_cases seen : i < turns
  · have inside : ¬ 32 ≤ i := by omega
    have known : 1 + i < 32 := by omega
    rw [if_pos known, Nat.add_comm 1 i, decide_eq_false inside, Bool.not_false, Bool.true_and]
    rfl
  · simp [seen]

/--
What the loop adds up, with so many turns left.

That is the shifted factor, once for each bit of the other one that is still to be seen.
-/
theorem multLoop_double (turns : Nat) (few : turns ≤ 32) (a bHi bLo hi lo : Word) :
    double (multLoop turns a bHi bLo hi lo).1 (multLoop turns a bHi bLo hi lo).2 =
      double hi lo + double bHi bLo * BitVec.ofNat 64 (a.toNat % 2 ^ turns) := by
  induction turns generalizing a bHi bLo hi lo with
  -- No turns are left, and no bits to be seen.
  | zero => simp [multLoop, Nat.mod_one]
  | succ turns ih =>
    -- One bit is seen now, and the others after a shift of both factors.
    have bits : a.toNat % 2 ^ (turns + 1) =
        a.toNat % 2 +
          ((a.sshiftRight 1).toNat % 2 ^ turns + (a.sshiftRight 1).toNat % 2 ^ turns) := by
      rw [shifted_bits a few, Nat.pow_succ', Nat.mod_mul, Nat.two_mul]
    have later := fun hi lo => ih (by omega) (a.sshiftRight 1)
      (bHi <<< 1 ||| if bLo &&& 0x80000000 ≠ 0 then 1 else 0) (bLo <<< 1) hi lo
    rw [bits]
    simp only [multLoop]
    -- A bit that is set adds the shifted factor to the sum.
    by_cases odd : a &&& 1 ≠ 0
    · have counted : a.toNat % 2 = 1 := (low_bit a).mp odd
      simp only [if_pos odd]
      by_cases rest : a &&& 0xfffffffe = 0
      · -- The early exit: the bit seen now is the last one.
        have one := last_bit odd rest
        rw [if_pos ⟨odd, rest⟩]
        have none : (a.sshiftRight 1).toNat = 0 := by
          rw [one]
          rfl
        rw [double_add, counted, none, Nat.zero_mod]
        exact congrArg _ (mul_one _).symm
      · -- There are more bits, and the loop goes on.
        rw [if_neg fun both => rest both.2, later, double_add, double_shift, counted,
          BitVec.ofNat_add, BitVec.ofNat_add, show BitVec.ofNat 64 1 = 1 from rfl]
        ring
    · -- The bit is not set, and nothing is added.
      have uncounted : a.toNat % 2 = 0 := by
        have := mt (low_bit a).mpr odd
        omega
      simp only [if_neg odd]
      rw [if_neg fun both => odd both.1, later, double_shift, uncounted, Nat.zero_add,
        BitVec.ofNat_add]
      ring

/-- The whole loop multiplies the factors, as unsigned ones. -/
theorem multLoop_whole (a b : Word) :
    double (multLoop 32 a 0 b 0 0).1 (multLoop 32 a 0 b 0 0).2 =
      BitVec.ofNat 64 (a.toNat * b.toNat) := by
  have start : double 0 b = BitVec.ofNat 64 b.toNat := by
    apply BitVec.eq_of_toNat_eq
    have small := b.isLt
    have zero : (0 : Word).toNat = 0 := rfl
    rw [toNat_double, BitVec.toNat_ofNat]
    omega
  have nothing : double 0 0 = 0 := by decide
  rw [multLoop_double 32 (Nat.le_refl 32), start, nothing, Nat.mod_eq_of_lt a.isLt,
    BitVec.ofNat_mul]
  ring

/-- Made positive, a number is its absolute value: the least one wraps around to it. -/
theorem toNat_positive (a : Word) : (if a.slt 0 then -a else a).toNat = a.toInt.natAbs := by
  have wide := a.isLt
  rw [BitVec.toInt_eq_toNat_cond]
  by_cases below : a.slt 0
  · have top : a.msb = true := BitVec.slt_zero_iff_msb_cond.mp below
    have large : 2 ^ 31 ≤ a.toNat := by simpa [BitVec.msb_eq_decide] using top
    rw [if_pos below, if_neg (by omega), BitVec.toNat_neg]
    omega
  · have top : ¬ a.msb = true := mt BitVec.slt_zero_iff_msb_cond.mpr below
    have small : ¬ 2 ^ 31 ≤ a.toNat := by simpa [BitVec.msb_eq_decide] using top
    rw [if_neg below, if_pos (by omega), Int.natAbs_natCast]

/-- The double word of an unsigned product. -/
theorem mult_unsigned (a b : Word) :
    double (mult a b false).1 (mult a b false).2 = BitVec.ofNat 64 (a.toNat * b.toNat) := by
  by_cases zero : a = 0 ∨ b = 0
  · -- The factor that is zero is not looked at any further.
    have none : a.toNat * b.toNat = 0 := by
      rcases zero with rfl | rfl
      · exact Nat.zero_mul _
      · exact Nat.mul_zero _
    rw [mult, if_pos zero, none]
    rfl
  · rw [mult, if_neg zero]
    exact multLoop_whole a b

/-- The double word of a signed product: the sign is put back at the end. -/
theorem mult_signed (a b : Word) :
    double (mult a b true).1 (mult a b true).2 = BitVec.ofInt 64 (a.toInt * b.toInt) := by
  -- A factor is zero, which the source tests first.
  by_cases zero : a = 0 ∨ b = 0
  · have none : a.toInt * b.toInt = 0 := by
      rcases zero with rfl | rfl
      · exact Int.zero_mul _
      · exact Int.mul_zero _
    rw [mult, if_pos zero, none]
    rfl
  · -- The loop multiplies the absolute values.
    have loop := multLoop_whole (if a.slt 0 then -a else a) (if b.slt 0 then -b else b)
    rw [toNat_positive, toNat_positive, ← Int.natAbs_mul] at loop
    have signA : a.slt 0 = decide (a.toInt < 0) := rfl
    have signB : b.slt 0 = decide (b.toInt < 0) := rfl
    rw [mult, if_neg zero]
    simp only [Bool.true_and]
    by_cases opposite : (a.slt 0 ^^ b.slt 0) = true
    · -- The factors have different signs, and both words are complemented.
      have below : a.toInt * b.toInt ≤ 0 := by
        rw [signA, signB] at opposite
        by_cases first : a.toInt < 0
        · have second : ¬ b.toInt < 0 := by simpa [first] using opposite
          exact mul_nonpos_of_nonpos_of_nonneg (by omega) (by omega)
        · have second : b.toInt < 0 := by simpa [first] using opposite
          exact mul_nonpos_of_nonneg_of_nonpos (by omega) (by omega)
      -- The product is the negated one of these.
      have product : a.toInt * b.toInt = -((a.toInt * b.toInt).natAbs : Int) := by omega
      rw [if_pos opposite, double_neg, loop, product, BitVec.ofInt_neg, BitVec.ofInt_natCast,
        Int.natAbs_neg, Int.natAbs_natCast]
    · -- The factors have the same sign.
      have above : 0 ≤ a.toInt * b.toInt := by
        rw [signA, signB] at opposite
        by_cases first : a.toInt < 0
        · have second : b.toInt < 0 := by simpa [first] using opposite
          exact mul_nonneg_of_nonpos_of_nonpos (by omega) (by omega)
        · have second : ¬ b.toInt < 0 := by simpa [first] using opposite
          exact mul_nonneg (by omega) (by omega)
      -- It is that of the absolute values itself.
      have product : a.toInt * b.toInt = ((a.toInt * b.toInt).natAbs : Int) := by omega
      rw [if_neg opposite, loop, product, BitVec.ofInt_natCast, Int.natAbs_natCast]

/-- A product of two signed words fits a signed double word. -/
theorem product_fits (a b : Word) : (a.toInt * b.toInt).natAbs ≤ 2 ^ 62 := by
  have first : a.toInt.natAbs ≤ 2 ^ 31 := by
    have range := inInt_toInt a
    omega
  have second : b.toInt.natAbs ≤ 2 ^ 31 := by
    have range := inInt_toInt b
    omega
  rw [Int.natAbs_mul]
  calc a.toInt.natAbs * b.toInt.natAbs ≤ 2 ^ 31 * 2 ^ 31 := Nat.mul_le_mul first second
    _ = 2 ^ 62 := by norm_num

/--
`Mult` is exact.

The pair of words is the product of the signed factors read as a signed number, and the product of
the unsigned ones read as an unsigned number.
-/
theorem mult_isExact (a b : Word) :
    ((mult a b true).1 ++ (mult a b true).2).toInt = a.toInt * b.toInt ∧
      ((mult a b false).1 ++ (mult a b false).2).toNat = a.toNat * b.toNat := by
  constructor
  · -- The signed product fits into 64 bits.
    have signed := congrArg BitVec.toInt (mult_signed a b)
    have fits := product_fits a b
    rw [BitVec.toInt_ofInt, Int.bmod_eq_of_le (by omega) (by omega)] at signed
    exact signed
  · -- So does the unsigned one.
    have unsigned := congrArg BitVec.toNat (mult_unsigned a b)
    have fits : a.toNat * b.toNat < 2 ^ 64 :=
      calc a.toNat * b.toNat < 2 ^ 32 * 2 ^ 32 := Nat.mul_lt_mul'' a.isLt b.isLt
        _ = 2 ^ 64 := by norm_num
    rw [BitVec.toNat_ofNat, Nat.mod_eq_of_lt fits] at unsigned
    exact unsigned

-- The least int is its own negation, and its square fits all the same.
example : mult 0x80000000 0x80000000 true = (0x40000000, 0) := by decide

end Nachos
