import Mathlib.Logic.Function.Basic
import Nachos.Theory.Naming

/-! File trees: what each path stands for, and the tree that directories with names make up. -/

namespace Nachos

/-- What a path stands for: a directory, or a file with what is in it. -/
inductive FileNode (Contents : Type)
  | directory
  | file (contents : Contents)

/-- A file tree says what each path stands for, if it stands for anything. -/
abbrev FileTree (Name Contents : Type) : Type := List Name → Option (FileNode Contents)

namespace FileTree

variable {Name Contents : Type} [DecidableEq Name] {tree : FileTree Name Contents}

/-- Let a path stand for something. -/
def put (tree : FileTree Name Contents) (path : List Name) (node : FileNode Contents) :
    FileTree Name Contents :=
  Function.update tree path (some node)

/-- Take away a path, and with it everything that is below it. -/
def prune (tree : FileTree Name Contents) (path : List Name) : FileTree Name Contents :=
  fun other => if path <+: other then none else tree other

/-- The root is a directory, and whatever else there is is in one. -/
structure Rooted (tree : FileTree Name Contents) : Prop where
  root : tree [] = some .directory
  inside : ∀ path name, tree (path ++ [name]) ≠ none → tree path = some .directory

end FileTree

namespace Naming

variable {Cell Name Contents : Type} (naming : Naming Cell Name) {after : Naming Cell Name}
  {root cell parent : Cell} {path other front back : List Name} {name last : Name}

/-- What a cell is: a directory, or a file with contents of its own. -/
def node (contents : Cell → Contents) (cell : Cell) : FileNode Contents :=
  if naming.lists cell then .directory else .file (contents cell)

/-- The tree that the directories make up from a root on. -/
def tree (root : Cell) (contents : Cell → Contents) : FileTree Name Contents
  | [] => some .directory
  | name :: rest => (naming.find root (name :: rest)).map (naming.node contents)

variable {naming} {contents contents' : Cell → Contents}

/-- Below the root the tree is what is found. -/
theorem tree_of_ne_nil (some : path ≠ []) :
    naming.tree root contents path = (naming.find root path).map (naming.node contents) := by
  cases path with
  | nil => exact absurd rfl some
  | cons name rest => rfl

/-- What is found along a path is found from where a front part of it leads. -/
theorem find_append (some : back ≠ []) : naming.find root (front ++ back) =
    (naming.walk root front).bind fun directory => naming.find directory back := by
  rcases List.eq_nil_or_concat back with rfl | ⟨names, name, rfl⟩
  · exact absurd rfl some
  · simp only [List.concat_eq_append, ← List.append_assoc, find_concat, walk_append,
      Option.bind_assoc]

/-- Nothing is found below a cell that names nothing. -/
theorem find_of_lookup_none (bare : ∀ name, naming.lookup cell name = none) (some : path ≠ []) :
    naming.find cell path = none := by
  rcases List.eq_nil_or_concat path with rfl | ⟨names, name, rfl⟩
  · exact absurd rfl some
  rw [List.concat_eq_append, find_concat]
  cases names with
  | nil => simp [bare]
  | cons first rest => simp [walk, bare]

/-- Nothing is found below a path that nothing is found at, or that is no directory with names. -/
theorem find_below (led : naming.walk root path = some parent)
    (bare : ∀ cell, naming.lookup parent last = some cell → naming.lists cell = true →
      ∀ name, naming.lookup cell name = none) (more : back ≠ []) :
    naming.find root ((path ++ [last]) ++ back) = none := by
  rw [find_append more, Option.bind_eq_none_iff]
  intro cell reached
  obtain ⟨directory, led', named, listing⟩ := walk_concat_eq_some.mp reached
  cases led.symm.trans led'
  exact find_of_lookup_none (bare cell named listing) more

/-- A path is one of a directory exactly if a walk along it ends. -/
theorem tree_eq_directory : naming.tree root contents path = some .directory ↔
    ∃ directory, naming.walk root path = some directory := by
  -- The empty path is that of the root.
  rcases List.eq_nil_or_concat path with rfl | ⟨names, name, rfl⟩
  · exact ⟨fun _ => ⟨root, rfl⟩, fun _ => rfl⟩
  rw [List.concat_eq_append, tree_of_ne_nil (by simp), find_concat]
  constructor
  · -- A path that stands for a directory stands for a cell that lists names.
    intro isDirectory
    obtain ⟨cell, found, listed⟩ := Option.map_eq_some_iff.mp isDirectory
    obtain ⟨directory, led, named⟩ := Option.bind_eq_some_iff.mp found
    refine ⟨cell, walk_concat_eq_some.mpr ⟨directory, led, named, ?_⟩⟩
    unfold node at listed
    split at listed
    · assumption
    · cases listed
  · -- The other way: the walk ends at such a cell.
    rintro ⟨cell, reached⟩
    obtain ⟨directory, led, named, listing⟩ := walk_concat_eq_some.mp reached
    simp [led, named, node, listing]

/-- What the directories make up is a tree. -/
theorem tree_rooted : (naming.tree root contents).Rooted := by
  refine ⟨rfl, fun path name there => tree_eq_directory.mpr ?_⟩
  rw [tree_of_ne_nil (by simp), find_concat] at there
  cases led : naming.walk root path with
  | none => simp [led] at there
  | some directory => exact ⟨directory, rfl⟩

/-- Only one path finds a cell that is not listed twice. -/
theorem Single.find_unique (single : naming.Single root) (found : naming.find root path = some cell)
    (also : naming.find root other = some cell) : path = other := by
  rcases List.eq_nil_or_concat path with rfl | ⟨names, name, rfl⟩
  · cases found
  rcases List.eq_nil_or_concat other with rfl | ⟨names', name', rfl⟩
  · cases also
  rw [List.concat_eq_append, find_concat] at found also
  obtain ⟨directory, led, named⟩ := Option.bind_eq_some_iff.mp found
  obtain ⟨directory', led', named'⟩ := Option.bind_eq_some_iff.mp also
  obtain ⟨rfl, rfl⟩ := single.named led led' named named'
  rw [single.walk_unique led led']

/-- The names and the kinds of what is found are the same, and so are the contents of the files. -/
structure SameAt (naming after : Naming Cell Name) (root : Cell)
    (contents contents' : Cell → Contents) (path : List Name) : Prop where
  find : after.find root path = naming.find root path
  node : ∀ cell, naming.find root path = some cell →
    after.node contents' cell = naming.node contents cell

/-- A path that finds the same stands for the same. -/
theorem SameAt.tree (same : SameAt naming after root contents contents' path) :
    after.tree root contents' path = naming.tree root contents path := by
  cases path with
  | nil => rfl
  | cons name rest =>
    rw [tree_of_ne_nil (by simp), tree_of_ne_nil (by simp), same.find]
    exact Option.map_congr fun cell found => same.node cell found

section Changes

variable (changes : Changes naming after root parent last) (single : naming.Single root)
  (led : naming.walk root path = some parent)
  (kept : ∀ other cell, naming.find root other = some cell → naming.lists cell = false →
    contents' cell = contents cell)

include changes kept

/-- What is found by a path stays what it is. -/
theorem Changes.node {cell : Cell} (found : naming.find root other = some cell) :
    after.node contents' cell = naming.node contents cell := by
  rcases List.eq_nil_or_concat other with rfl | ⟨names, name, rfl⟩
  · cases found
  have found' := found
  rw [List.concat_eq_append, find_concat] at found'
  obtain ⟨directory, led, named⟩ := Option.bind_eq_some_iff.mp found'
  unfold Naming.node
  rw [changes.lists led named]
  cases listing : naming.lists cell with
  | true => rfl
  | false => simp [kept _ _ found listing]

omit kept in
include single led in
/-- The directory with the changed name is where it was. -/
theorem Changes.walk_self : after.walk root path = some parent := by
  rw [changes.walk_other single led, led]
  intro starts
  have shorter := starts.length_le
  rw [List.length_append, List.length_singleton] at shorter
  omega

include single led

/-- The paths that do not start with the changed name stand for what they did. -/
theorem Changes.tree_other (apart : ¬ path ++ [last] <+: other) :
    after.tree root contents' other = naming.tree root contents other :=
  SameAt.tree ⟨changes.find_other single led apart, fun _ => changes.node kept⟩

omit kept in
/-- Nothing that is found changes when a name is added that was not there. -/
theorem Changes.find_added (absent : naming.lookup parent last = none)
    (found : naming.find root other = some cell) : after.find root other = some cell := by
  rw [changes.find_other single led, found]
  -- Nothing was found at the new name, nor below it.
  rintro ⟨back, rfl⟩
  by_cases more : back = []
  · subst more
    rw [List.append_nil, find_concat, led, Option.bind_some, absent] at found
    cases found
  · rw [find_below led (fun listed also => by simp [absent] at also) more] at found
    cases found

variable [DecidableEq Name]

/-- A name that is new puts into the tree what it stands for. -/
theorem Changes.tree_added (absent : naming.lookup parent last = none)
    (named : after.lookup parent last = some cell)
    (bare : after.lists cell = true → ∀ name, after.lookup cell name = none) :
    after.tree root contents' =
      (naming.tree root contents).put (path ++ [last]) (after.node contents' cell) := by
  have self := changes.find_self single led
  have led' := changes.walk_self single led
  funext other
  -- The path itself stands for what the name stands for.
  by_cases here : other = path ++ [last]
  · subst here
    rw [tree_of_ne_nil (by simp), self, named, FileTree.put, Function.update_self]
    rfl
  rw [FileTree.put, Function.update_of_ne here]
  by_cases below : path ++ [last] <+: other
  · -- There was nothing below the new name, and there still is nothing.
    obtain ⟨back, rfl⟩ := below
    have more : back ≠ [] := by
      rintro rfl
      exact here (List.append_nil _)
    have before : naming.find root ((path ++ [last]) ++ back) = none :=
      find_below led (fun found also => by simp [absent] at also) more
    have behind : after.find root ((path ++ [last]) ++ back) = none := by
      refine find_below led' (fun found also listing => ?_) more
      rw [named] at also
      cases also
      exact bare listing
    rw [tree_of_ne_nil (by simp), tree_of_ne_nil (by simp), before, behind]
    rfl
  · -- A path that does not go through the name is as it was.
    exact changes.tree_other single led kept below

/-- A name that stands for nothing any more is taken away, with everything below it. -/
theorem Changes.tree_removed (gone : after.lookup parent last = none) :
    after.tree root contents' = (naming.tree root contents).prune (path ++ [last]) := by
  have led' := changes.walk_self single led
  -- Path by path: below the name, or not.
  funext other
  unfold FileTree.prune
  by_cases below : path ++ [last] <+: other
  · rw [if_pos below]
    obtain ⟨back, rfl⟩ := below
    rw [tree_of_ne_nil (by simp), Option.map_eq_none_iff]
    -- The name itself stands for nothing, nor does anything behind it.
    cases back with
    | nil => simp [led', gone]
    | cons name rest =>
      refine find_below led' (fun found also => ?_) (by simp)
      rw [gone] at also
      cases also
  · -- Any other path is not concerned.
    rw [if_neg below]
    exact changes.tree_other single led kept below

end Changes

/-- The directories name the same, and what they name is of the same kinds. -/
structure Keeps (naming after : Naming Cell Name) (root : Cell) : Prop where
  lookup : ∀ {path : List Name} {directory : Cell}, naming.walk root path = some directory →
    ∀ name, after.lookup directory name = naming.lookup directory name
  lists : ∀ {path : List Name} {directory cell : Cell} {name : Name},
    naming.walk root path = some directory → naming.lookup directory name = some cell →
    after.lists cell = naming.lists cell

namespace Keeps

variable (keeps : Keeps naming after root)

include keeps

/-- Every path leads where it did. -/
theorem walk : ∀ path, after.walk root path = naming.walk root path := by
  intro path
  -- By induction from the end: the directory is the same, and so is what the last name stands for.
  induction path using List.reverseRecOn with
  | nil => rfl
  | append_singleton front name ih =>
    rw [walk_append, walk_append, ih]
    -- The walk along the names in front ends nowhere, or at the same directory.
    cases reached : naming.walk root front with
    | none => rfl
    | some directory =>
      simp only [Option.bind_some, Naming.walk]
      rw [keeps.lookup reached]
      -- The last name stands for nothing, or for the same cell.
      cases named : naming.lookup directory name with
      | none => rfl
      | some next =>
        simp only [Option.bind_some]
        rw [keeps.lists reached named]

/-- Every path finds what it did. -/
theorem find (path : List Name) : after.find root path = naming.find root path := by
  rcases List.eq_nil_or_concat path with rfl | ⟨front, name, rfl⟩
  · rfl
  rw [List.concat_eq_append, find_concat, find_concat, keeps.walk]
  cases reached : naming.walk root front with
  | none => rfl
  | some directory => exact keeps.lookup reached name

/-- What is found is a directory if it was one. -/
theorem lists_found (found : naming.find root path = some cell) :
    after.lists cell = naming.lists cell := by
  rcases List.eq_nil_or_concat path with rfl | ⟨front, name, rfl⟩
  · cases found
  rw [List.concat_eq_append, find_concat] at found
  obtain ⟨directory, led, named⟩ := Option.bind_eq_some_iff.mp found
  exact keeps.lists led named

/-- If no file has other contents, then every path stands for what it did. -/
theorem tree_same (kept : ∀ other cell, naming.find root other = some cell →
    naming.lists cell = false → contents' cell = contents cell) :
    after.tree root contents' = naming.tree root contents := by
  funext other
  refine SameAt.tree ⟨keeps.find other, fun cell there => ?_⟩
  unfold node
  rw [keeps.lists_found there]
  cases listing : naming.lists cell with
  | true => rfl
  | false => simp [kept other cell there listing]

/-- If one file has other contents, then only its path stands for something else. -/
theorem tree_written [DecidableEq Name] (single : naming.Single root)
    (found : naming.find root path = some cell) (plain : naming.lists cell = false)
    (kept : ∀ other cell', naming.find root other = some cell' → naming.lists cell' = false →
      cell' ≠ cell → contents' cell' = contents cell') :
    after.tree root contents' =
      (naming.tree root contents).put path (.file (contents' cell)) := by
  -- The root is no file.
  have some : path ≠ [] := by
    rintro rfl
    cases found
  funext other
  -- The path of the file has the new contents.
  by_cases here : other = path
  · subst here
    rw [FileTree.put, Function.update_self, tree_of_ne_nil some, keeps.find, found]
    simp [node, keeps.lists_found found, plain]
  rw [FileTree.put, Function.update_of_ne here]
  -- Any other path stands for the cell that it stood for.
  refine SameAt.tree ⟨keeps.find other, fun cell' there => ?_⟩
  unfold node
  rw [keeps.lists_found there]
  cases listing : naming.lists cell' with
  | true => rfl
  | false =>
    -- The cell is not the one that was written, since that has one path only.
    have differs : cell' ≠ cell := by
      rintro rfl
      exact here (single.find_unique there found)
    simp [kept other cell' there listing differs]

end Keeps

end Naming

end Nachos
