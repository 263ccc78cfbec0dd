import Nachos.Proofs.Filesys.Format
import Nachos.Theory.Naming

/-! Path lookup is a walk down the tree that the directories on the disk make up. -/

namespace Nachos

/-- The components of a path: the texts between slashes, as far as they count in a name. -/
def components (path : List Byte) : List (List Byte) :=
  (((path.takeWhile (· ≠ 0)).splitOn slash).filter (· ≠ [])).map (·.take fileNameMaxLen)

/-- What the directories on a disk say: the entries in use, by their names. -/
def naming (disk : Disk) : Naming Int (List Byte) where
  lookup sector name :=
    ((List.range numDirEntries).find? fun i =>
      (dirAt disk sector).inUse i && (dirAt disk sector).entryName i == name).map
        (dirAt disk sector).entrySector
  lists sector := (headerAt disk sector).type = .dir

section Components

variable {path name rest : List Byte}

/-- A slash in front makes no difference to the components. -/
theorem components_cons_slash (path : List Byte) : components (slash :: path) = components path := by
  unfold components
  rw [List.takeWhile_cons_of_pos (by decide), List.splitOn_cons_eq_if_modifyHead, if_pos (by decide),
    List.filter_cons_of_neg (by decide)]

/-- Nor do any number of slashes. -/
theorem components_dropWhile (path : List Byte) :
    components (path.dropWhile (· = slash)) = components path := by
  induction path with
  | nil => rfl
  | cons c rest ih =>
    by_cases here : c = slash
    · subst here
      rw [List.dropWhile_cons_of_pos (by decide), ih, components_cons_slash]
    · rw [List.dropWhile_cons_of_neg (by simpa using here)]

/-- There are no components where the string ends. -/
theorem components_of_end (ends : path.headD 0 = 0) : components path = [] := by
  cases path with
  | nil => decide
  | cons c rest =>
    rw [List.headD_cons] at ends
    subst ends
    unfold components
    rw [List.takeWhile_cons_of_neg (by decide)]
    decide

/-- The first component, and those of what comes after it. -/
theorem components_append {first tail : List Byte} (some : first ≠ [])
    (plain : ∀ c ∈ first, c ≠ slash ∧ c ≠ 0) (stops : tail.headD 0 = slash ∨ tail.headD 0 = 0) :
    components (first ++ tail) = first.take fileNameMaxLen :: components tail := by
  -- The component has no slash and no null, so it is not split.
  have noSlash : slash ∉ first := fun member => (plain _ member).1 rfl
  have noEnd : ∀ c ∈ first, decide (c ≠ 0) = true := fun c member => by simpa using (plain c member).2
  have alone : components first = [first.take fileNameMaxLen] := by
    unfold components
    rw [List.takeWhile_eq_self_iff.mpr noEnd, List.splitOn_eq_singleton noSlash,
      List.filter_cons_of_pos (by simpa using some)]
    rfl
  -- Behind the first component the path is over, goes on with a slash, or ends in a null.
  cases tail with
  | nil =>
    rw [List.append_nil, alone]
    rfl
  | cons c tail =>
    rw [List.headD_cons] at stops
    -- It goes on with a slash.
    rcases stops with rfl | rfl
    · rw [components_cons_slash]
      unfold components
      rw [List.takeWhile_append_of_pos noEnd, List.takeWhile_cons_of_pos (by decide),
        List.splitOn_append_cons_self, List.splitOn_eq_singleton noSlash, List.singleton_append,
        List.filter_cons_of_pos (by simpa using some), List.map_cons]
    · -- It ends in a null.
      rw [@components_of_end (0 :: tail) rfl]
      refine Eq.trans ?_ alone
      unfold components
      rw [List.takeWhile_append_of_pos noEnd, List.takeWhile_cons_of_neg (by decide), List.append_nil,
        List.takeWhile_eq_self_iff.mpr noEnd]

/-- `skipelem` finds no component where there is none. -/
theorem components_of_none (none : Directory.skipelem path = none) : components path = [] := by
  unfold Directory.skipelem at none
  dsimp only at none
  split at none
  · rename_i ends
    rw [← components_dropWhile]
    exact components_of_end ends
  · cases none

/-- `skipelem` takes the first component off. -/
theorem components_of_some (split : Directory.skipelem path = some (name, rest)) :
    components path = name :: components rest := by
  unfold Directory.skipelem at split
  -- Slashes in front count neither in the path nor in its components.
  have first := List.head?_dropWhile_not (fun c => decide (c = slash)) path
  rw [← components_dropWhile path]
  generalize path.dropWhile (fun c => decide (c = slash)) = path' at split first ⊢
  dsimp only at split
  -- A path that is at its end has no component.
  split at split
  · cases split
  rename_i notEnd
  cases split
  rw [components_dropWhile]
  -- The component is a front part of the path, and what follows starts with a slash or ends it.
  have front := List.prefix_iff_eq_append.mp
    (List.takeWhile_prefix (l := path') fun c => decide (c ≠ slash ∧ c ≠ 0))
  have back := List.takeWhile_append_dropWhile (p := fun c => decide (c ≠ slash ∧ c ≠ 0)) (l := path')
  have rest := List.append_cancel_left (front.trans back.symm)
  -- The component has no slash and no null.
  have plain : ∀ c ∈ path'.takeWhile (fun c => decide (c ≠ slash ∧ c ≠ 0)), c ≠ slash ∧ c ≠ 0 :=
    fun c member => by simpa using List.mem_takeWhile_imp member
  -- What follows begins with one of the two.
  have stops := List.head?_dropWhile_not (fun c => decide (c ≠ slash ∧ c ≠ 0)) path'
  -- It is not empty, as the path is not at its end.
  have some : path'.takeWhile (fun c => decide (c ≠ slash ∧ c ≠ 0)) ≠ [] := by
    cases path' with
    | nil => exact absurd rfl notEnd
    | cons c tail =>
      simp only [List.head?_cons, decide_eq_false_iff_not] at first
      rw [List.headD_cons] at notEnd
      rw [List.takeWhile_cons_of_pos (by simpa using ⟨first, notEnd⟩)]
      exact List.cons_ne_nil _ _
  rw [← rest] at stops
  conv_lhs => rw [← front]
  -- So the path is the component and what follows.
  refine components_append some plain ?_
  generalize path'.drop _ = tail at stops
  cases tail with
  | nil => exact .inr rfl
  | cons c tail =>
    simp only [List.head?_cons, decide_eq_false_iff_not, not_and_or, not_not] at stops
    exact stops

/-- There are no components left exactly where the string ends. -/
theorem components_rest (split : Directory.skipelem path = some (name, rest)) :
    components rest = [] ↔ rest.headD 0 = 0 := by
  refine ⟨fun none => ?_, components_of_end⟩
  by_contra goesOn
  obtain ⟨following, tail, more⟩ := Directory.skipelem_more split goesOn
  rw [components_of_some more] at none
  cases none

/-- A component is a name as it is compared. -/
theorem cString_of_skipelem (split : Directory.skipelem path = some (name, rest)) :
    cString fileNameMaxLen name = name := by
  unfold Directory.skipelem at split
  dsimp only at split
  split at split
  · cases split
  cases split
  unfold cString
  rw [List.take_take, Nat.min_self, List.takeWhile_eq_self_iff]
  intro c member
  have here := List.mem_takeWhile_imp (List.mem_of_mem_take member)
  rw [decide_eq_true_iff] at here ⊢
  exact here.2

end Components

section Walk

variable {disk : Disk} {sector parent : Int} {path name last : List Byte}

/-- The directories are the headers of that kind. -/
theorem naming_lists : (naming disk).lists sector = true ↔ (headerAt disk sector).type = .dir :=
  decide_eq_true_iff

/-- A name that is cut is looked up as the code does it. -/
theorem lookup_eq (cut : cString fileNameMaxLen name = name) : (naming disk).lookup sector name =
    ((dirAt disk sector).findIndex name).map (dirAt disk sector).entrySector := by
  unfold naming Directory.findIndex
  rw [cut]

/-- A name that is found stands for the header that `dirlookup` gives. -/
theorem Readable.lookup_iff (readable : Readable disk) (found : IsDirectory disk sector)
    (cut : cString fileNameMaxLen name = name) {next : Int} :
    (naming disk).lookup sector name = some next ↔
      (dirAt disk sector).dirlookup name ≠ -1 ∧ (dirAt disk sector).dirlookup name = next := by
  rw [lookup_eq cut]
  -- A header is never at -1, so that this number can only say that the name is not there.
  rcases readable.dirlookup_cases found name with ⟨absent, none⟩ | ⟨-, some, there⟩
  · rw [absent, none]
    exact ⟨(nomatch ·), fun both => absurd rfl both.1⟩
  · obtain ⟨i, search⟩ := Option.ne_none_iff_exists'.mp some
    have lookup := (Directory.findIndex_some search).2.2.2
    rw [search, Option.map_some, Option.some.injEq, ← lookup]
    exact ⟨fun same => ⟨there, same⟩, And.right⟩

/-- A path leads to its last component, in the directory that the others are walked to. -/
theorem Readable.leads_iff_walk (readable : Readable disk) (found : IsDirectory disk sector) :
    Leads disk sector path parent last ↔
      ∃ names, components path = names ++ [last] ∧ (naming disk).walk sector names = some parent := by
  constructor
  · intro leads
    -- By induction on where the path leads, one name for each component but the last.
    induction leads with
    -- The last name is all that is left.
    | last split ends =>
      refine ⟨[], ?_, rfl⟩
      rw [components_of_some split, components_of_end ends]
      rfl
    -- One name, and the walk of the others.
    | @more sector parent path name rest last split _ there listing _ ih =>
      obtain ⟨names, same, led⟩ := ih (isDirectory_dirlookup found there listing)
      refine ⟨name :: names, ?_, ?_⟩
      · rw [components_of_some split, same]
        rfl
      · have named := (readable.lookup_iff found (cString_of_skipelem split)).mpr ⟨there, rfl⟩
        have lists : (naming disk).lists ((dirAt disk sector).dirlookup name) = true :=
          naming_lists.mpr listing
        rw [Naming.walk, named, Option.bind_some, if_pos lists]
        exact led
  · rintro ⟨names, same, led⟩
    -- By induction on the components, one step of the walk for each but the last.
    induction names generalizing sector path with
    -- No step is left, and the path has one component.
    | nil =>
      cases led
      cases split : Directory.skipelem path with
      | none =>
        rw [components_of_none split] at same
        cases same
      | some both =>
        obtain ⟨name, rest⟩ := both
        rw [components_of_some split] at same
        obtain ⟨rfl, none⟩ := List.cons.inj same
        exact .last split ((components_rest split).mp none)
    -- One step, to a directory that the name stands for.
    | cons name names ih =>
      cases split : Directory.skipelem path with
      | none =>
        rw [components_of_none split] at same
        cases same
      | some both =>
        obtain ⟨first, rest⟩ := both
        rw [components_of_some split] at same
        obtain ⟨rfl, others⟩ := List.cons.inj same
        obtain ⟨next, named, led⟩ := Option.bind_eq_some_iff.mp led
        obtain ⟨there, rfl⟩ := (readable.lookup_iff found (cString_of_skipelem split)).mp named
        -- The header there is that of a directory, or the walk would not go on.
        by_cases listing : (naming disk).lists ((dirAt disk sector).dirlookup first) = true
        · rw [if_pos listing] at led
          have kind := naming_lists.mp listing
          refine .more split (fun ends => ?_) there kind
            (ih (isDirectory_dirlookup found there kind) others led)
          rw [components_of_end ends] at others
          simp at others
        · rw [if_neg listing] at led
          cases led

/-- The last component that a path leads to is a name as it is compared. -/
theorem Leads.cut (leads : Leads disk sector path parent last) :
    cString fileNameMaxLen last = last := by
  induction leads with
  | last split _ => exact cString_of_skipelem split
  | more _ _ _ _ _ ih => exact ih

/-- A path in which `skipelem` finds something has components. -/
theorem components_of_isSome (found : (Directory.skipelem path).isSome = true) :
    components path ≠ [] := by
  intro none
  obtain ⟨⟨name, rest⟩, split⟩ := Option.isSome_iff_exists.mp found
  rw [components_of_some split] at none
  cases none

/-- In a path that has components, `skipelem` finds one. -/
theorem skipelem_isSome (some : components path ≠ []) : (Directory.skipelem path).isSome = true := by
  cases split : Directory.skipelem path with
  | none => exact absurd (components_of_none split) some
  | some both => rfl

end Walk

/-- `Find` and `namex` walk down the tree that the directories make up, and always come back. -/
theorem find_treeWalk {disk : Disk} (readable : Readable disk) {path : List Byte}
    (some : components path ≠ []) :
    Fs.Reads disk ((dirAt disk directorySector).find path)
        (((naming disk).find directorySector (components path)).getD (-1)) ∧
      match (naming disk).walk directorySector (components path).dropLast with
      | .some parent => Fs.Reads disk ((dirAt disk directorySector).namex path true)
          (parent, (components path).getLast some)
      | none => ∃ name, Fs.Reads disk ((dirAt disk directorySector).namex path true) (-1, name) := by
  rcases Directory.namex_reads readable (skipelem_isSome some) with
    ⟨parent, last, leads, reads⟩ | ⟨nowhere, name, reads⟩
  · -- The path leads to a parent, in which the last name is looked up.
    obtain ⟨names, same, led⟩ := (readable.leads_iff_walk .root).mp leads
    have finds := Directory.find_leads readable leads
    have lookup := @lookup_eq disk parent last leads.cut
    refine ⟨?_, ?_⟩
    · -- The tree has what the directory has under the name.
      rw [same, Naming.find_concat, led, Option.bind_some, lookup]
      unfold Directory.dirlookup at finds
      cases search : (dirAt disk parent).findIndex last with
      | none =>
        rw [search] at finds
        exact finds
      | some i =>
        rw [search] at finds
        exact finds
    · -- The walk along the other names is what `namex` gives.
      simp only [same, List.dropLast_concat, led, List.getLast_concat]
      exact reads true
  · -- No walk ends where the path would have to lead.
    have lost : (naming disk).walk directorySector (components path).dropLast = none := by
      rw [Option.eq_none_iff_forall_ne_some]
      intro parent led
      refine nowhere parent ((components path).getLast some) ?_
      exact (readable.leads_iff_walk .root).mpr
        ⟨_, (List.dropLast_append_getLast some).symm, led⟩
    refine ⟨?_, ?_⟩
    · -- No name is found.
      have finds := Directory.find_nowhere readable (skipelem_isSome some) nowhere
      unfold Naming.find
      rw [lost]
      cases (components path).getLast? with
      | none => exact finds
      | some last => exact finds
    · -- Nor does `namex` lead anywhere.
      rw [lost]
      exact ⟨name, reads true⟩

/-- A path with slashes in front, between and behind is walked on a disk that has been formatted. -/
theorem find_treeWalk_formatted : ∃ fs disk, FileSystem.Formatted disk fs ∧
    Fs.Reads disk ((dirAt disk directorySector).find [47, 47, 97, 47, 47, 98, 47])
        (((naming disk).find directorySector [[97], [98]]).getD (-1)) ∧
      match (naming disk).walk directorySector [[97]] with
      | some parent => Fs.Reads disk
          ((dirAt disk directorySector).namex [47, 47, 97, 47, 47, 98, 47] true) (parent, [98])
      | none => ∃ name, Fs.Reads disk
          ((dirAt disk directorySector).namex [47, 47, 97, 47, 47, 98, 47] true) (-1, name) := by
  obtain ⟨fs, final, -, formatted⟩ :=
    FileSystem.format_yields (fun _ => .ofBytes []) (World.ofDisk fun _ => .ofBytes []) rfl
  obtain ⟨given, systemOnly⟩ := formatted.systemOnly
  have some : components [47, 47, 97, 47, 47, 98, 47] ≠ [] := by decide
  exact ⟨fs, final.disk, formatted, find_treeWalk systemOnly.sound.readable some⟩

end Nachos
