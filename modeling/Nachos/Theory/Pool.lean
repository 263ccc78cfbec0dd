import Mathlib.Data.Finset.Max

/-! Pools of names, some of which are taken, and the least name that is free. -/

namespace Nachos

/-- A finite pool of names, and those of them that are taken. -/
structure Pool (Name : Type) where
  names : Finset Name
  taken : Finset Name
  inside : taken ⊆ names

namespace Pool

variable {Name : Type}

/-- The pool in which every name is free. -/
def fresh (names : Finset Name) : Pool Name where
  names := names
  taken := ∅
  inside := Finset.empty_subset names

@[simp] theorem names_fresh (names : Finset Name) : (fresh names).names = names := rfl

@[simp] theorem taken_fresh (names : Finset Name) : (fresh names).taken = ∅ := rfl

section Free

variable [DecidableEq Name] (pool : Pool Name) {name : Name}

/-- The names that are free. -/
def free : Finset Name := pool.names \ pool.taken

/-- Change what is taken, as long as the name is one of the pool. -/
def change (name : Name) (taken : Finset Name) (inside : name ∈ pool.names → taken ⊆ pool.names) :
    Option (Pool Name) :=
  if known : name ∈ pool.names then some ⟨pool.names, taken, inside known⟩ else none

/-- Take a name of the pool, which may be taken already. -/
def take (name : Name) : Option (Pool Name) :=
  pool.change name (insert name pool.taken) fun known => Finset.insert_subset known pool.inside

/-- Give a name of the pool back, which may be free already. -/
def release (name : Name) : Option (Pool Name) :=
  pool.change name (pool.taken.erase name) fun _ => (Finset.erase_subset _ _).trans pool.inside

@[simp] theorem mem_free : name ∈ pool.free ↔ name ∈ pool.names ∧ name ∉ pool.taken :=
  Finset.mem_sdiff

/-- What a change leaves. -/
theorem change_eq_some {taken : Finset Name} {inside : name ∈ pool.names → taken ⊆ pool.names}
    {after : Pool Name} : pool.change name taken inside = some after ↔
      name ∈ pool.names ∧ after.names = pool.names ∧ after.taken = taken := by
  -- A pool is its names and those that are taken.
  obtain ⟨names, others, within⟩ := after
  unfold change
  split
  · rename_i known
    simp only [Option.some.injEq, mk.injEq]
    constructor
    · rintro ⟨rfl, rfl⟩
      exact ⟨known, rfl, rfl⟩
    · rintro ⟨-, rfl, rfl⟩
      exact ⟨rfl, rfl⟩
  · rename_i unknown
    exact ⟨nofun, fun parts => absurd parts.1 unknown⟩

/-- What taking a name leaves. -/
theorem take_eq_some {after : Pool Name} : pool.take name = some after ↔
    name ∈ pool.names ∧ after.names = pool.names ∧ after.taken = insert name pool.taken :=
  pool.change_eq_some

/-- What giving a name back leaves. -/
theorem release_eq_some {after : Pool Name} : pool.release name = some after ↔
    name ∈ pool.names ∧ after.names = pool.names ∧ after.taken = pool.taken.erase name :=
  pool.change_eq_some

/-- Each name is taken or free. -/
theorem card_free : pool.free.card + pool.taken.card = pool.names.card :=
  Finset.card_sdiff_add_card_eq_card pool.inside

end Free

section Least

variable [LinearOrder Name] (pool : Pool Name) {name : Name}

/-- The least name that is free, if any is. -/
def least : Option Name :=
  if some : pool.free.Nonempty then pool.free.min' some else none

/-- The least free name is free, and every smaller name is taken. -/
theorem least_eq_some : pool.least = some name ↔
    name ∈ pool.free ∧ ∀ other ∈ pool.names, other < name → other ∈ pool.taken := by
  unfold least
  -- Being least says that no free name is smaller, and all names are free or taken.
  constructor
  · intro found
    split at found
    · rename_i some
      obtain rfl := Option.some.inj found
      -- A smaller name that were free would be less than the least one.
      refine ⟨pool.free.min'_mem some, fun other known smaller => ?_⟩
      by_contra unused
      have least := pool.free.min'_le other (pool.mem_free.mpr ⟨known, unused⟩)
      exact absurd smaller (not_lt.mpr least)
    · cases found
  · rintro ⟨unused, below⟩
    rw [dif_pos ⟨name, unused⟩, Option.some.injEq]
    refine le_antisymm (pool.free.min'_le name unused) (not_lt.mp fun smaller => ?_)
    have least := pool.mem_free.mp (pool.free.min'_mem ⟨name, unused⟩)
    exact least.2 (below _ least.1 smaller)

/-- There is no least free name exactly if every name is taken. -/
theorem least_eq_none : pool.least = none ↔ pool.taken = pool.names := by
  unfold least
  -- There is a least free name as soon as there is a free one.
  split
  · rename_i some
    obtain ⟨name, unused⟩ := some
    obtain ⟨known, unused⟩ := pool.mem_free.mp unused
    exact ⟨nofun, fun all => absurd (all ▸ known) unused⟩
  · rename_i none
    rw [Finset.not_nonempty_iff_eq_empty, free, Finset.sdiff_eq_empty_iff_subset] at none
    exact ⟨fun _ => Finset.Subset.antisymm pool.inside none, fun _ => rfl⟩

end Least

end Pool

end Nachos
