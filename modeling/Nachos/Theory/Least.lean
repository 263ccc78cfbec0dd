import Mathlib.Data.List.FinRange
import Mathlib.Data.List.MinMax

/-! The loop that walks a list and keeps the first of the elements with the least key. -/

namespace Nachos

section Least

variable {Item Key : Type} [LinearOrder Key]

/-- Keep the best item so far, or change to one with a smaller key. -/
def leastFrom (key : Item → Key) : Item → List Item → Item
  | best, [] => best
  | best, item :: rest =>
    if key item < key best then leastFrom key item rest else leastFrom key best rest

/-- The loop finds what the library calls the argument of the minimum. -/
theorem argmin_eq_leastFrom (key : Item → Key) (rest : List Item) :
    ∀ first, (first :: rest).argmin key = some (leastFrom key first rest) := by
  induction rest with
  | nil => exact fun first => rfl
  | cons item rest ih =>
    intro first
    unfold leastFrom
    -- The first of the two decides which of them the rest is compared with.
    split
    · rename_i less
      rw [← ih item]
      simp [List.argmin, List.argAux, less]
    · rename_i least
      rw [← ih first]
      simp [List.argmin, List.argAux, least]

/-- What the loop finds is one of the items. -/
theorem leastFrom_mem (key : Item → Key) (first : Item) (rest : List Item) :
    leastFrom key first rest ∈ first :: rest :=
  List.argmin_mem (argmin_eq_leastFrom key rest first)

/-- No item has a smaller key than the one that the loop finds. -/
theorem leastFrom_le (key : Item → Key) {first : Item} {rest : List Item} {item : Item}
    (member : item ∈ first :: rest) : key (leastFrom key first rest) ≤ key item :=
  List.le_of_mem_argmin member (argmin_eq_leastFrom key rest first)

/-- A first candidate that is compared with itself again stays. -/
theorem leastFrom_self (key : Item → Key) (first : Item) (rest : List Item) :
    leastFrom key first (first :: rest) = leastFrom key first rest := by
  rw [leastFrom, if_neg (lt_irrefl _)]

/-- Over all indices, the loop finds the least key, and the first place that has it. -/
theorem leastFrom_finRange {n : Nat} (key : Fin (n + 1) → Key) (i : Fin (n + 1)) :
    key (leastFrom key 0 (List.finRange (n + 1))) < key i ∨
      key (leastFrom key 0 (List.finRange (n + 1))) = key i ∧
        leastFrom key 0 (List.finRange (n + 1)) ≤ i := by
  have split : List.finRange (n + 1) = 0 :: (List.finRange n).map Fin.succ := List.finRange_succ
  have found : (List.finRange (n + 1)).argmin key =
      some (leastFrom key 0 (List.finRange (n + 1))) := by
    rw [split, leastFrom_self]
    exact argmin_eq_leastFrom key _ 0
  obtain ⟨-, least, early⟩ := List.mem_argmin_iff.mp found
  rcases lt_or_eq_of_le (least i (List.mem_finRange i)) with less | same
  · exact .inl less
  · -- Among equal keys the loop stays with the first.
    have order := early i (List.mem_finRange i) same.ge
    rw [List.idxOf_finRange, List.idxOf_finRange] at order
    exact .inr ⟨same, order⟩

end Least

end Nachos
