import Mathlib.Logic.Basic

/-! Records that lie in cells: what directories list, what records use, and who owns which cell. -/

namespace Nachos

/-- What the records say: which of them are directories, what these list, and what each uses. -/
structure Holdings (Cell : Type) where
  lists : Cell → Prop
  entry : Cell → Nat → Option Cell
  part : Cell → Nat → Option Cell

/-- What a cell can be owned by: nothing but its place, an entry of a directory, or a record. -/
inductive Owner (Cell : Type)
  | fixed (cell : Cell)
  | entry (directory : Cell) (i : Nat)
  | part (record : Cell) (j : Nat)

namespace Holdings

variable {Cell : Type}

/-- The directories that are found from the root. -/
inductive Directory (holdings : Holdings Cell) (root : Cell) : Cell → Prop
  | root : Directory holdings root root
  | entry {directory cell : Cell} {i : Nat} (parent : Directory holdings root directory)
    (named : holdings.entry directory i = some cell) (listing : holdings.lists cell) :
    Directory holdings root cell

/-- The records that are found: those in fixed places, and those that directories list. -/
inductive Record (holdings : Holdings Cell) (fixed : Cell → Prop) (root : Cell) : Cell → Prop
  | fixed {cell : Cell} (placed : fixed cell) : Record holdings fixed root cell
  | entry {directory cell : Cell} {i : Nat} (parent : Directory holdings root directory)
    (named : holdings.entry directory i = some cell) : Record holdings fixed root cell

/-- What owns a cell. -/
inductive Owns (holdings : Holdings Cell) (fixed : Cell → Prop) (root : Cell) :
    Owner Cell → Cell → Prop
  | fixed {cell : Cell} (placed : fixed cell) : Owns holdings fixed root (.fixed cell) cell
  | entry {directory cell : Cell} {i : Nat} (parent : Directory holdings root directory)
    (named : holdings.entry directory i = some cell) :
    Owns holdings fixed root (.entry directory i) cell
  | part {record cell : Cell} {j : Nat} (found : Record holdings fixed root record)
    (used : holdings.part record j = some cell) : Owns holdings fixed root (.part record j) cell

/-- No cell has two owners. -/
def Unshared (holdings : Holdings Cell) (fixed : Cell → Prop) (root : Cell) : Prop :=
  ∀ owner other cell, Owns holdings fixed root owner cell → Owns holdings fixed root other cell →
    owner = other

variable {holdings after : Holdings Cell} {fixed : Cell → Prop} {root : Cell}

/-- Every directory is a record. -/
theorem Directory.record (rooted : fixed root) {cell : Cell}
    (found : Directory holdings root cell) : Record holdings fixed root cell := by
  cases found with
  | root => exact .fixed rooted
  | entry parent named _ => exact .entry parent named

/-- Every record is owned as a cell. -/
theorem Record.owned {cell : Cell} (found : Record holdings fixed root cell) :
    ∃ owner, Owns holdings fixed root owner cell ∧ ∀ record j, owner ≠ .part record j := by
  cases found with
  | fixed placed => exact ⟨_, .fixed placed, fun _ _ same => nomatch same⟩
  | entry parent named => exact ⟨_, .entry parent named, fun _ _ same => nomatch same⟩

/-- Ownership stays unshared if what is newly owned was free, and is owned only once. -/
theorem Unshared.extend (unshared : Unshared holdings fixed root) {New : Owner Cell → Cell → Prop}
    (cases : ∀ owner cell, Owns after fixed root owner cell →
      Owns holdings fixed root owner cell ∨ New owner cell)
    (fresh : ∀ owner cell, New owner cell → ∀ other, ¬ Owns holdings fixed root other cell)
    (apart : ∀ owner other cell, New owner cell → New other cell → owner = other) :
    Unshared after fixed root := by
  intro owner other cell first second
  -- Each of the two owners is an old one or a new one.
  rcases cases owner cell first with old | new
  · -- Two old owners are the same by what is assumed.
    rcases cases other cell second with also | new
    · -- What is new was free before.
      exact unshared owner other cell old also
    · exact absurd old (fresh other cell new owner)
  · rcases cases other cell second with old | also
    · -- Two new owners are the same as well.
      exact absurd old (fresh owner cell new other)
    · exact apart owner other cell new also

section Shrinking

variable (lists : ∀ cell, Record holdings fixed root cell → after.lists cell → holdings.lists cell)
  (entries : ∀ directory, Directory holdings root directory → ∀ i cell,
    after.entry directory i = some cell → holdings.entry directory i = some cell)

include lists entries

/-- Without new entries there are no new directories. -/
theorem Directory.of_shrunk {cell : Cell} (found : Directory after root cell) :
    Directory holdings root cell := by
  -- The path from the root was there before, entry by entry.
  induction found with
  | root => exact .root
  | entry _ named listing ih =>
    have before := entries _ ih _ _ named
    exact .entry ih before (lists _ (.entry ih before) listing)

/-- Without new entries there are no new records. -/
theorem Record.of_shrunk {cell : Cell} (found : Record after fixed root cell) :
    Record holdings fixed root cell := by
  cases found with
  | fixed placed => exact .fixed placed
  | entry parent named =>
    have before := parent.of_shrunk lists entries
    exact .entry before (entries _ before _ _ named)

end Shrinking

section Same

variable (lists : ∀ cell, Record holdings fixed root cell → (after.lists cell ↔ holdings.lists cell))
  (entries : ∀ directory, Directory holdings root directory →
    after.entry directory = holdings.entry directory)

include lists entries

/-- With the same entries there are the same directories. -/
theorem directory_iff_of_same (cell : Cell) :
    Directory after root cell ↔ Directory holdings root cell := by
  have shrunk : ∀ cell, Record holdings fixed root cell → after.lists cell → holdings.lists cell :=
    fun cell found => (lists cell found).mp
  refine ⟨fun found => found.of_shrunk shrunk fun directory parent i cell named => by
    rwa [← entries directory parent], fun found => ?_⟩
  -- The other way, each entry on the path is still there.
  induction found with
  | root => exact .root
  | @entry directory cell i parent named listing ih =>
    have still : after.entry directory i = some cell := by rw [entries directory parent, named]
    exact .entry ih still ((lists cell (.entry parent named)).mpr listing)

/-- With the same entries there are the same records. -/
theorem record_iff_of_same (cell : Cell) :
    Record after fixed root cell ↔ Record holdings fixed root cell := by
  have directory := directory_iff_of_same lists entries
  constructor
  · -- A record is at a fixed place, or an entry names it.
    intro found
    cases found with
    | fixed placed => exact .fixed placed
    | @entry parent cell i found named =>
      have before := (directory parent).mp found
      exact .entry before (by rw [← entries parent before, named])
  · -- The other way, by the same entries.
    intro found
    cases found with
    | fixed placed => exact .fixed placed
    | @entry parent cell i found named =>
      exact .entry ((directory parent).mpr found) (by rw [entries parent found, named])

/-- With the same entries, a cell has the same owners if its records have the same parts. -/
theorem owns_iff_of_same (owner : Owner Cell) (cell : Cell) : Owns after fixed root owner cell ↔
    (Owns holdings fixed root owner cell ∧ ∀ record j, owner ≠ .part record j) ∨
      ∃ record j, owner = .part record j ∧ Record holdings fixed root record ∧
        after.part record j = some cell := by
  have directory := directory_iff_of_same lists entries
  have record := record_iff_of_same lists entries
  -- Places and entries are the same ones, and only the parts may differ.
  constructor
  · intro owns
    cases owns with
    | fixed placed => exact .inl ⟨.fixed placed, fun _ _ same => nomatch same⟩
    | entry parent named =>
      have before := (directory _).mp parent
      rw [entries _ before] at named
      exact .inl ⟨.entry before named, fun _ _ same => nomatch same⟩
    | part found used => exact .inr ⟨_, _, rfl, (record _).mp found, used⟩
  · -- The other way, an owner of either kind is found.
    rintro (⟨owns, other⟩ | ⟨_, _, rfl, found, used⟩)
    · cases owns with
      | fixed placed => exact .fixed placed
      | entry parent named =>
        exact .entry ((directory _).mpr parent) (by rw [entries _ parent, named])
      | part found used => exact absurd rfl (other _ _)
    · exact .part ((record _).mpr found) used

end Same

section Adding

/-- One more entry names one more record, which lists nothing yet. -/
structure Adds (holdings after : Holdings Cell) (fixed : Cell → Prop) (root directory : Cell)
    (i : Nat) (cell : Cell) : Prop where
  parent : Directory holdings root directory
  free : holdings.entry directory i = none
  lists : ∀ other, Record holdings fixed root other → (after.lists other ↔ holdings.lists other)
  parts : ∀ other, Record holdings fixed root other → after.part other = holdings.part other
  named : after.entry directory i = some cell
  others : ∀ other, Directory holdings root other → ∀ j, other ≠ directory ∨ j ≠ i →
    after.entry other j = holdings.entry other j
  empty : after.lists cell → ∀ j, after.entry cell j = none

namespace Adds

variable {directory cell : Cell} {i : Nat}

/-- An entry of a directory that was there is the new one, or was there as well. -/
theorem entry_cases (adds : Adds holdings after fixed root directory i cell) {parent other : Cell}
    {j : Nat} (found : Directory holdings root parent) (named : after.entry parent j = some other) :
    holdings.entry parent j = some other ∨ (parent = directory ∧ j = i ∧ other = cell) := by
  -- Only one entry is new, and it names the new record.
  by_cases here : parent = directory ∧ j = i
  · obtain ⟨rfl, rfl⟩ := here
    rw [adds.named] at named
    cases named
    exact .inr ⟨rfl, rfl, rfl⟩
  · rw [adds.others parent found j (by rwa [← not_and_or])] at named
    exact .inl named

/-- An entry that was in use is as it was. -/
theorem entry_kept (adds : Adds holdings after fixed root directory i cell) {parent other : Cell}
    {j : Nat} (found : Directory holdings root parent)
    (named : holdings.entry parent j = some other) : after.entry parent j = some other := by
  rw [adds.others parent found j ?_, named]
  rw [← not_and_or]
  rintro ⟨rfl, rfl⟩
  rw [adds.free] at named
  cases named

/-- What was found before is still found. -/
theorem directory_kept (adds : Adds holdings after fixed root directory i cell) {other : Cell}
    (found : Directory holdings root other) : Directory after root other := by
  -- No entry on the path is the new one, which was free.
  induction found with
  | root => exact .root
  | entry parent named listing ih =>
    exact .entry ih (adds.entry_kept parent named) ((adds.lists _ (.entry parent named)).mpr listing)

/-- The directories are those from before, and the new record if it is one. -/
theorem directory_iff (adds : Adds holdings after fixed root directory i cell) (other : Cell) :
    Directory after root other ↔
      Directory holdings root other ∨ (other = cell ∧ after.lists cell) := by
  constructor
  · -- By induction on how the directory is found.
    intro found
    induction found with
    | root => exact .inl .root
    | entry _ named listing ih =>
      -- What names it is an old directory, or the new record.
      rcases ih with before | ⟨rfl, new⟩
      · rcases adds.entry_cases before named with old | ⟨-, -, rfl⟩
        · exact .inl (.entry before old ((adds.lists _ (.entry before old)).mp listing))
        · exact .inr ⟨rfl, listing⟩
      · -- The new record lists nothing.
        rw [adds.empty new] at named
        cases named
  · -- What was a directory is one still.
    rintro (before | ⟨rfl, listing⟩)
    · exact adds.directory_kept before
    · exact .entry (adds.directory_kept adds.parent) adds.named listing

/-- The records are those from before, and the new one. -/
theorem record_iff (adds : Adds holdings after fixed root directory i cell) (other : Cell) :
    Record after fixed root other ↔ Record holdings fixed root other ∨ other = cell := by
  -- A record is named by an old entry, or by the new one, whose directory is empty.
  constructor
  · intro found
    cases found with
    | fixed placed => exact .inl (.fixed placed)
    | entry parent named =>
      rcases (adds.directory_iff _).mp parent with before | ⟨rfl, new⟩
      · rcases adds.entry_cases before named with old | ⟨-, -, rfl⟩
        · exact .inl (.entry before old)
        · exact .inr rfl
      · rw [adds.empty new] at named
        cases named
  · -- The other way: the old records are there, and the new one is named.
    rintro (before | rfl)
    · cases before with
      | fixed placed => exact .fixed placed
      | entry parent named => exact .entry (adds.directory_kept parent) (adds.entry_kept parent named)
    · exact .entry (adds.directory_kept adds.parent) adds.named

/-- The new entry owns the new record, which owns its parts; all else is as before. -/
theorem owns_iff (adds : Adds holdings after fixed root directory i cell)
    (fresh : ¬ Record holdings fixed root cell) (owner : Owner Cell) (other : Cell) :
    Owns after fixed root owner other ↔ Owns holdings fixed root owner other ∨
      (owner = .entry directory i ∧ other = cell) ∨
      ∃ j, owner = .part cell j ∧ after.part cell j = some other := by
  -- What is owned after the change is sorted by who owns it.
  constructor
  · intro owns
    cases owns with
    | fixed placed => exact .inl (.fixed placed)
    | entry parent named =>
      rcases (adds.directory_iff _).mp parent with before | ⟨rfl, new⟩
      · rcases adds.entry_cases before named with old | ⟨rfl, rfl, rfl⟩
        · exact .inl (.entry before old)
        · exact .inr (.inl ⟨rfl, rfl⟩)
      · rw [adds.empty new] at named
        cases named
    | part found used =>
      rcases (adds.record_iff _).mp found with before | rfl
      · rw [adds.parts _ before] at used
        exact .inl (.part before used)
      · exact .inr (.inr ⟨_, rfl, used⟩)
  · -- The other way: what was owned is owned still, and what is new by the new entry.
    rintro (before | ⟨rfl, rfl⟩ | ⟨j, rfl, used⟩)
    · cases before with
      | fixed placed => exact .fixed placed
      | entry parent named => exact .entry (adds.directory_kept parent) (adds.entry_kept parent named)
      | part found used =>
        exact .part ((adds.record_iff _).mpr (.inl found)) (by rw [adds.parts _ found, used])
    · exact .entry (adds.directory_kept adds.parent) adds.named
    · exact .part ((adds.record_iff _).mpr (.inr rfl)) used

end Adds

end Adding

end Holdings

end Nachos
