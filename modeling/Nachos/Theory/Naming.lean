import Mathlib.Data.List.Infix

/-! Directories that name cells: where names lead, and which paths one changed entry changes. -/

namespace Nachos

/-- What directories say: which cell a name stands for in a directory, and which cells are ones. -/
structure Naming (Cell Name : Type) where
  lookup : Cell → Name → Option Cell
  lists : Cell → Bool

namespace Naming

variable {Cell Name : Type} (naming : Naming Cell Name)

/-- Follow names from directory to directory. -/
def walk : Cell → List Name → Option Cell
  | cell, [] => some cell
  | cell, name :: rest =>
    (naming.lookup cell name).bind fun next => if naming.lists next then walk next rest else none

/-- Look the last name up in the directory that the names before it lead to. -/
def find (root : Cell) (names : List Name) : Option Cell :=
  names.getLast?.bind fun last =>
    (naming.walk root names.dropLast).bind fun parent => naming.lookup parent last

variable {naming} {after : Naming Cell Name} {root cell parent : Cell} {path other : List Name}
  {name last : Name}

@[simp] theorem walk_nil : naming.walk cell [] = some cell := rfl

/-- Names that follow names are followed from where those lead. -/
theorem walk_append (front back : List Name) : ∀ cell,
    naming.walk cell (front ++ back) =
      (naming.walk cell front).bind fun next => naming.walk next back := by
  induction front with
  | nil => exact fun _ => rfl
  | cons name rest ih =>
    intro cell
    simp only [List.cons_append, walk, Option.bind_assoc]
    congr 1
    funext next
    split
    · exact ih next
    · rfl

/-- The last step of a walk. -/
theorem walk_concat_eq_some {next : Cell} : naming.walk root (path ++ [name]) = some next ↔
    ∃ directory, naming.walk root path = some directory ∧
      naming.lookup directory name = some next ∧ naming.lists next = true := by
  -- The step is a walk of its own, from where the names before it lead.
  rw [walk_append]
  simp only [walk, Option.bind_eq_some_iff]
  constructor
  · -- The name stands for something, which must list names to be walked to.
    rintro ⟨directory, led, found, named, here⟩
    by_cases listing : naming.lists found = true
    · rw [if_pos listing] at here
      cases here
      exact ⟨directory, led, named, listing⟩
    · rw [if_neg listing] at here
      cases here
  · -- The other way: the three parts make up the step.
    rintro ⟨directory, led, named, listing⟩
    exact ⟨directory, led, next, named, if_pos listing⟩

/-- What is found is in the directory that the names but the last lead to. -/
@[simp] theorem find_concat : naming.find root (path ++ [name]) =
    (naming.walk root path).bind fun parent => naming.lookup parent name := by
  simp [find]

/-- A directory or a file has one name in one directory, and the root has none. -/
structure Single (naming : Naming Cell Name) (root : Cell) : Prop where
  named : ∀ {path other : List Name} {directory directory' cell : Cell} {name name' : Name},
    naming.walk root path = some directory → naming.walk root other = some directory' →
    naming.lookup directory name = some cell → naming.lookup directory' name' = some cell →
    directory = directory' ∧ name = name'
  rootless : ∀ {path : List Name} {directory : Cell} {name : Name},
    naming.walk root path = some directory → naming.lookup directory name ≠ some root

/-- Only one path leads to a directory. -/
theorem Single.walk_unique (single : Single naming root) :
    ∀ {path other : List Name} {cell : Cell}, naming.walk root path = some cell →
      naming.walk root other = some cell → path = other := by
  -- By induction from the end: the last names are the same, and so are the directories they are in.
  intro path
  induction path using List.reverseRecOn with
  | nil =>
    intro other cell first second
    cases first
    rcases List.eq_nil_or_concat other with rfl | ⟨front, name, rfl⟩
    · rfl
    · -- No name stands for the root.
      rw [List.concat_eq_append] at second
      obtain ⟨directory, led, named, -⟩ := walk_concat_eq_some.mp second
      exact absurd named (single.rootless led)
  | append_singleton front name ih =>
    intro other cell first second
    obtain ⟨directory, led, named, -⟩ := walk_concat_eq_some.mp first
    rcases List.eq_nil_or_concat other with rfl | ⟨front', name', rfl⟩
    · -- The same the other way round.
      cases second
      exact absurd named (single.rootless led)
    · -- Both paths end with the name of the cell, in the same directory.
      rw [List.concat_eq_append] at second ⊢
      obtain ⟨directory', led', named', -⟩ := walk_concat_eq_some.mp second
      obtain ⟨rfl, rfl⟩ := single.named led led' named named'
      rw [ih led led']

/-- Nothing has changed but what one name stands for in one directory. -/
structure Changes (naming after : Naming Cell Name) (root parent : Cell) (last : Name) : Prop where
  lookup : ∀ {path : List Name} {directory : Cell}, naming.walk root path = some directory →
    ∀ name, (directory = parent → name ≠ last) →
      after.lookup directory name = naming.lookup directory name
  lists : ∀ {path : List Name} {directory cell : Cell} {name : Name},
    naming.walk root path = some directory → naming.lookup directory name = some cell →
    after.lists cell = naming.lists cell

namespace Changes

variable (changes : Changes naming after root parent last) (single : Single naming root)
  (led : naming.walk root path = some parent)

include changes single led

/-- In a directory that is reached, a name stands for what it did, unless it is the changed one. -/
theorem lookup_other {directory : Cell} (reached : naming.walk root other = some directory)
    (apart : ¬ path ++ [last] <+: other ++ [name]) :
    after.lookup directory name = naming.lookup directory name := by
  refine changes.lookup reached name ?_
  rintro rfl rfl
  rw [single.walk_unique led reached] at apart
  exact apart (List.prefix_refl _)

/-- A path that does not start with the changed name leads where it did. -/
theorem walk_other : ∀ {other : List Name}, ¬ path ++ [last] <+: other →
    after.walk root other = naming.walk root other := by
  intro other
  -- By induction from the end: the directory is the same, and so is what its last name stands for.
  induction other using List.reverseRecOn with
  | nil => exact fun _ => rfl
  | append_singleton front name ih =>
    intro apart
    have before : ¬ path ++ [last] <+: front := fun starts =>
      apart (starts.trans (List.prefix_append _ _))
    rw [walk_append, walk_append, ih before]
    -- The names in front lead nowhere, or to one directory.
    cases reached : naming.walk root front with
    | none => rfl
    | some directory =>
      simp only [Option.bind_some, walk]
      rw [changes.lookup_other single led reached apart]
      -- The last name does not, or it stands for one cell.
      cases named : naming.lookup directory name with
      | none => rfl
      | some next =>
        simp only [Option.bind_some]
        rw [changes.lists reached named]

/-- A path that does not start with the changed name finds what it did. -/
theorem find_other (apart : ¬ path ++ [last] <+: other) :
    after.find root other = naming.find root other := by
  rcases List.eq_nil_or_concat other with rfl | ⟨front, name, rfl⟩
  · rfl
  · rw [List.concat_eq_append] at apart ⊢
    have before : ¬ path ++ [last] <+: front := fun starts =>
      apart (starts.trans (List.prefix_append _ _))
    rw [find_concat, find_concat, changes.walk_other single led before]
    cases reached : naming.walk root front with
    | none => rfl
    | some directory => exact changes.lookup_other single led reached apart

/-- The changed path finds what the name stands for now. -/
theorem find_self : after.find root (path ++ [last]) = after.lookup parent last := by
  have apart : ¬ path ++ [last] <+: path := by
    intro starts
    have shorter := starts.length_le
    rw [List.length_append, List.length_singleton] at shorter
    omega
  rw [find_concat, changes.walk_other single led apart, led]
  rfl

end Changes

end Naming

end Nachos
