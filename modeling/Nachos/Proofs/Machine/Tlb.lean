import Mathlib.Data.Nat.Bitwise
import Mathlib.Tactic.SplitIfs
import Nachos.Machine.Tlb

/-! Laws of the TLB: where a page is looked for, and which translations an operation can leave. -/

namespace Nachos

namespace TLB

variable {tlb : TLB}

/-- An entry of the TLB that maps a page to a frame. -/
def Maps (tlb : TLB) (vpn : Nat) (page : Int) : Prop :=
  ∃ way, (tlb (index vpn) way).valid = true ∧ (tlb (index vpn) way).tag = tagOf vpn ∧
    (tlb (index vpn) way).ppn = page

/-- The set and the tag together are the page number. -/
theorem tag_index (vpn : Nat) (bounded : vpn < 2 ^ 32) :
    4 * tagOf vpn + (index vpn).val = vpn := by
  have set : (index vpn).val = vpn % 4 := Nat.and_two_pow_sub_one_eq_mod vpn 2
  have tag : tagOf vpn = vpn / 4 % 2 ^ 30 := by
    unfold tagOf
    rw [Nat.shiftRight_eq_div_pow]
    exact Nat.and_two_pow_sub_one_eq_mod (vpn / 4) 30
  rw [set, tag]
  omega

/-- Two pages that agree in set and tag are the same page. -/
theorem eq_of_tag_index {vpn other : Nat} (bounded : vpn < 2 ^ 32) (alsoBounded : other < 2 ^ 32)
    (tag : tagOf vpn = tagOf other) (set : index vpn = index other) : vpn = other := by
  rw [← tag_index vpn bounded, ← tag_index other alsoBounded, tag, set]

/-- A hit is an entry that maps the page. -/
theorem hit_some {vpn : Nat} {way : Fin 4} (found : tlb.hit vpn = some way) :
    (tlb (index vpn) way).valid = true ∧ (tlb (index vpn) way).tag = tagOf vpn := by
  simpa using List.find?_some found

/-- A translation through the TLB only ages it. -/
theorem translate_hit {virtAddr : Nat} {way : Fin 4}
    (found : tlb.hit (virtAddr / pageSize) = some way) :
    tlb.translate virtAddr =
      ((tlb (index (virtAddr / pageSize)) way).ppn * pageSize + (virtAddr % pageSize : Nat),
        tlb.put (index (virtAddr / pageSize)) way
          { tlb (index (virtAddr / pageSize)) way with lru := 0 }) := by
  simp [translate, found]

/-- A miss changes nothing. -/
theorem translate_miss {virtAddr : Nat} (missed : tlb.hit (virtAddr / pageSize) = none) :
    tlb.translate virtAddr = (-1, tlb) := by
  simp [translate, missed]

/-- Every translation of one TLB is a translation of the other, at the same place. -/
def Within (tlb other : TLB) : Prop :=
  ∀ set way, (tlb set way).valid = true → (other set way).valid = true ∧
    (tlb set way).tag = (other set way).tag ∧ (tlb set way).ppn = (other set way).ppn

theorem Within.refl (tlb : TLB) : tlb.Within tlb := fun _ _ valid => ⟨valid, rfl, rfl⟩

/-- A new age does not change what an entry maps. -/
theorem put_within (set way : Fin 4) (lru : Nat) :
    (tlb.put set way { tlb set way with lru }).Within tlb := by
  intro i j valid
  by_cases here : i = set ∧ j = way
  · obtain ⟨rfl, rfl⟩ := here
    simpa [put] using valid
  · -- Any other entry is as it was.
    have same : tlb.put set way { tlb set way with lru } i j = tlb i j := by
      by_cases row : i = set
      · subst row
        have column : j ≠ way := fun column => here ⟨rfl, column⟩
        simp [put, column]
      · simp [put, row]
    rw [same] at valid ⊢
    exact ⟨valid, rfl, rfl⟩

/-- Using the TLB leaves no translation that was not there. -/
theorem translate_within (virtAddr : Nat) : (tlb.translate virtAddr).2.Within tlb := by
  cases found : tlb.hit (virtAddr / pageSize) with
  | none =>
    rw [translate_miss found]
    exact .refl tlb
  | some way =>
    rw [translate_hit found]
    exact put_within _ way 0

/-- Dropping entries leaves no translation that was not there. -/
theorem invalidEntry_within (threadId : Int) (vpn : Nat) :
    (tlb.invalidEntry threadId vpn).Within tlb := by
  intro set way valid
  by_cases row : set = index vpn
  · subst row
    simp only [invalidEntry, Function.update_self] at valid ⊢
    split at valid
    · cases valid
    · rename_i kept
      simpa only [if_neg kept, and_self, and_true] using valid
  · simpa [invalidEntry, row] using valid

/-- Ageing a set changes the ages of its entries alone. -/
theorem ageFrom_entries (indices : List (Fin 4)) :
    ∀ (set : Fin 4 → TLBEntry) (chosen way : Fin 4),
      ∃ lru, (ageFrom set chosen indices).1 way = { set way with lru } := by
  -- Each step of the loop changes the age of one entry at most.
  induction indices with
  | nil => exact fun set _ way => ⟨(set way).lru, rfl⟩
  | cons i rest ih =>
    intro set chosen way
    -- Whatever the rest of the loop does, it starts with one entry aged.
    have aged : ∀ chosen, ∃ lru, (ageFrom
        (Function.update set i { set i with lru := ((set i).lru + 1) % 2 ^ 32 }) chosen rest).1 way =
          { set way with lru } := by
      intro chosen
      obtain ⟨lru, later⟩ := ih
        (Function.update set i { set i with lru := ((set i).lru + 1) % 2 ^ 32 }) chosen way
      refine ⟨lru, ?_⟩
      rw [later]
      by_cases same : way = i
      · subst same
        rw [Function.update_self]
      · rw [Function.update_of_ne same]
    unfold ageFrom
    split
    · -- The entry counts, and may be the one to replace.
      dsimp only
      split
      · exact aged _
      · exact aged _
    · -- The loop ends at an entry that does not count.
      exact ⟨(set way).lru, rfl⟩

/-- Installing a translation replaces one entry, and changes the ages of others alone. -/
theorem update_replaces (tlb : TLB) (virtAddr : Nat) (pageFrame currentPid : Int) :
    ∃ chosen,
      tlb.update virtAddr pageFrame currentPid (index (virtAddr / pageSize)) chosen =
        ⟨tagOf (virtAddr / pageSize), pageFrame, true, currentPid, 0⟩ ∧
      ∀ set way, ¬ (set = index (virtAddr / pageSize) ∧ way = chosen) →
        ∃ lru, tlb.update virtAddr pageFrame currentPid set way = { tlb set way with lru } := by
  unfold update
  dsimp only
  generalize chosenWay : (ageFrom (tlb (index (virtAddr / pageSize))) 0 (List.finRange 4)).2 = chosen
  refine ⟨chosen, by rw [Function.update_self, Function.update_self], fun set way other => ?_⟩
  by_cases row : set = index (virtAddr / pageSize)
  · subst row
    have column : way ≠ chosen := fun same => other ⟨rfl, same⟩
    rw [Function.update_self, Function.update_of_ne column]
    exact ageFrom_entries _ _ _ _
  · -- The other sets are not looked at.
    rw [Function.update_of_ne row]
    exact ⟨(tlb set way).lru, rfl⟩

/-- Installing a translation leaves it and no other one that was not there. -/
theorem update_entries (virtAddr : Nat) (pageFrame currentPid : Int) (set way : Fin 4)
    (valid : ((tlb.update virtAddr pageFrame currentPid) set way).valid = true) :
    (set = index (virtAddr / pageSize) ∧
      ((tlb.update virtAddr pageFrame currentPid) set way).tag = tagOf (virtAddr / pageSize) ∧
      ((tlb.update virtAddr pageFrame currentPid) set way).ppn = pageFrame) ∨
    ((tlb set way).valid = true ∧
      ((tlb.update virtAddr pageFrame currentPid) set way).tag = (tlb set way).tag ∧
      ((tlb.update virtAddr pageFrame currentPid) set way).ppn = (tlb set way).ppn) := by
  obtain ⟨chosen, replaced, others⟩ := tlb.update_replaces virtAddr pageFrame currentPid
  -- One entry of the set is replaced, and the others only age.
  by_cases here : set = index (virtAddr / pageSize) ∧ way = chosen
  · obtain ⟨rfl, rfl⟩ := here
    rw [replaced]
    exact .inl ⟨rfl, rfl, rfl⟩
  · obtain ⟨lru, aged⟩ := others set way here
    rw [aged] at valid ⊢
    exact .inr ⟨valid, rfl, rfl⟩

end TLB

end Nachos
