import Nachos.Lib.List

/-! A sorted insert keeps the list sorted, with the new item behind its equals. -/

namespace Nachos

variable {Item : Type}

/-- An item can be removed from a list that has it once. -/
theorem removeItem_eq [DecidableEq Item] {item : Item} {list : List Item} (once : list.Nodup)
    (member : item ∈ list) : removeItem item list = some (list.erase item) := by
  simp [removeItem, member, once.not_mem_erase]

/-- An item that is not there cannot be removed. -/
theorem removeItem_absent [DecidableEq Item] {item : Item} {list : List Item}
    (absent : item ∉ list) : removeItem item list = none := by
  simp [removeItem, absent]

/-- An insertion adds the item and nothing else. -/
theorem insertWalk_perm (compare : Item → Item → Int) (item : Item) (list : List Item) :
    (insertWalk compare item list).Perm (item :: list) := by
  induction list with
  | nil => exact .refl _
  | cons first rest ih =>
    simp only [insertWalk]
    split
    · exact .refl _
    · exact (ih.cons first).trans (.swap item first rest)

/-- The members after an insertion. -/
@[simp] theorem mem_insertWalk {compare : Item → Item → Int} {item other : Item}
    {list : List Item} : other ∈ insertWalk compare item list ↔ other = item ∨ other ∈ list := by
  rw [(insertWalk_perm compare item list).mem_iff, List.mem_cons]

/-- An item that is less than none of the others is inserted behind them. -/
theorem insertWalk_append {compare : Item → Item → Int} {item : Item} {list : List Item}
    (notLess : ∀ other ∈ list, ¬ compare item other < 0) :
    insertWalk compare item list = list ++ [item] := by
  induction list with
  | nil => rfl
  | cons first rest ih =>
    have tail := ih fun other member => notLess other (List.mem_cons_of_mem _ member)
    simp [insertWalk, notLess first List.mem_cons_self, tail]

/-- An insertion keeps every transitive order that the comparison decides for the item. -/
theorem insertWalk_pairwise {compare : Item → Item → Int} {item : Item} {list : List Item}
    {before : Item → Item → Prop} (trans : ∀ {a b c}, before a b → before b c → before a c)
    (less : ∀ other ∈ list, compare item other < 0 → before item other)
    (more : ∀ other ∈ list, ¬ compare item other < 0 → before other item)
    (sorted : list.Pairwise before) : (insertWalk compare item list).Pairwise before := by
  induction list with
  | nil => exact List.pairwise_singleton _ _
  | cons first rest ih =>
    obtain ⟨front, tail⟩ := List.pairwise_cons.mp sorted
    simp only [insertWalk]
    split
    · -- The item goes in front of the first greater element, and of all that follow it.
      rename_i smaller
      have head := less first List.mem_cons_self smaller
      refine List.pairwise_cons.mpr ⟨fun other member => ?_, sorted⟩
      rcases List.mem_cons.mp member with same | later
      · exact same ▸ head
      · exact trans head (front other later)
    · rename_i greater
      refine List.pairwise_cons.mpr ⟨fun other member => ?_, ih
        (fun other member => less other (List.mem_cons_of_mem _ member))
        (fun other member => more other (List.mem_cons_of_mem _ member)) tail⟩
      rcases mem_insertWalk.mp member with same | later
      · exact same ▸ more first List.mem_cons_self greater
      · exact front other later

end Nachos
