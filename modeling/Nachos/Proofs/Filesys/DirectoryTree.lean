import Nachos.Proofs.Filesys.SectorOwnership
import Nachos.Proofs.Filesys.TreeWalk

/-! Directories are a tree of finite maps: what adding and removing an entry does to every path. -/

namespace Nachos

variable {disk after : Disk} {parent sector : Int} {path name last : List Byte} {i : Nat}

/-- No two entries in use of a directory have the same name. -/
def UniqueNames (disk : Disk) : Prop :=
  ∀ sector, IsDirectory disk sector → ∀ i < numDirEntries, ∀ j < numDirEntries,
    (dirAt disk sector).inUse i = true → (dirAt disk sector).inUse j = true →
    (dirAt disk sector).entryName i = (dirAt disk sector).entryName j → i = j

section Naming

/-- A walk from a directory ends at a directory. -/
theorem isDirectory_of_walk {names : List (List Byte)} :
    ∀ {sector}, IsDirectory disk sector → (naming disk).walk sector names = some parent →
      IsDirectory disk parent := by
  -- By induction on the names: each leads to a directory, or the walk ends.
  induction names with
  | nil =>
    intro sector found led
    cases led
    exact found
  | cons name rest ih =>
    intro sector found led
    obtain ⟨next, named, led⟩ := Option.bind_eq_some_iff.mp led
    -- The name must stand for a directory.
    by_cases listing : (naming disk).lists next = true
    · rw [if_pos listing] at led
      obtain ⟨i, search, same⟩ := Option.map_eq_some_iff.mp named
      obtain ⟨both, member, -⟩ := List.find?_range_eq_some.mp search
      rw [Bool.and_eq_true] at both
      have entry := entry_eq_some.mpr ⟨⟨by simpa using member, both.1⟩, same⟩
      exact ih (.entry found entry (naming_lists.mp listing)) led
    · -- What is no directory has no names.
      rw [if_neg listing] at led
      cases led

/-- A name that stands for something is that of an entry in use. -/
theorem entry_of_lookup {cell : Int} (named : (naming disk).lookup sector name = some cell) :
    ∃ i, (holdings disk).entry sector i = some cell ∧ (dirAt disk sector).entryName i = name := by
  obtain ⟨i, search, same⟩ := Option.map_eq_some_iff.mp named
  obtain ⟨both, member, -⟩ := List.find?_range_eq_some.mp search
  rw [Bool.and_eq_true, beq_iff_eq] at both
  exact ⟨i, entry_eq_some.mpr ⟨⟨by simpa using member, both.1⟩, same⟩, both.2⟩

/-- In a tree every header has one name in one directory. -/
theorem Tree.single (tree : Tree disk) : (naming disk).Single directorySector := by
  refine ⟨fun led led' named named' => ?_, fun led named => ?_⟩
  · obtain ⟨i, entry, rfl⟩ := entry_of_lookup named
    obtain ⟨j, entry', rfl⟩ := entry_of_lookup named'
    have owners := tree.unshared _ _ _ (.entry (isDirectory_of_walk .root led) entry)
      (.entry (isDirectory_of_walk .root led') entry')
    cases owners
    exact ⟨rfl, rfl⟩
  · obtain ⟨i, entry, -⟩ := entry_of_lookup named
    cases tree.unshared _ _ _ (.entry (isDirectory_of_walk .root led) entry) (.fixed .directory)

end Naming

section Changes

/-- The same directory names the same. -/
theorem lookup_congr (same : dirAt after sector = dirAt disk sector) (name : List Byte) :
    (naming after).lookup sector name = (naming disk).lookup sector name := by
  unfold naming
  dsimp only
  rw [same]

/-- One name of one directory has changed if only one directory has, and only in this name. -/
theorem ChangedAt.changes (changed : ChangedAt disk after parent) (tree : Tree disk)
    (lookup : ∀ name, name ≠ last →
      (naming after).lookup parent name = (naming disk).lookup parent name) :
    (naming disk).Changes (naming after) directorySector parent last := by
  refine ⟨@fun _ directory led name apart => ?_, @fun _ directory cell name led named => ?_⟩
  · have found := isDirectory_of_walk .root led
    by_cases here : directory = parent
    · rw [here] at apart ⊢
      exact lookup name (apart rfl)
    · exact lookup_congr (changed.dirAt_other tree found here) name
  · obtain ⟨i, entry, -⟩ := entry_of_lookup named
    have isHeader : IsHeader disk cell := .entry (isDirectory_of_walk .root led) entry
    rw [Bool.eq_iff_iff, naming_lists, naming_lists, (changed.part isHeader).1]

namespace Gains

variable (gains : Gains disk after parent last i sector)

include gains

/-- The new name stands for the new header. -/
theorem lookup_self (absent : (dirAt disk parent).findIndex last = none)
    (cut : cString fileNameMaxLen last = last) :
    (naming after).lookup parent last = some sector := by
  rw [lookup_eq cut, gains.entered.findIndex_self absent, Option.map_some,
    gains.entered.entrySector, if_pos rfl]

/-- Every other name stands for what it did. -/
theorem lookup_other (cut : cString fileNameMaxLen last = last) (other : name ≠ last) :
    (naming after).lookup parent name = (naming disk).lookup parent name := by
  have entered := gains.entered
  -- The new entry has another name, and every other entry is as it was.
  have search : ((List.range numDirEntries).find? fun j =>
      (dirAt after parent).inUse j && (dirAt after parent).entryName j == name) =
        (List.range numDirEntries).find? fun j =>
          (dirAt disk parent).inUse j && (dirAt disk parent).entryName j == name := by
    congr 1
    funext j
    rw [entered.inUse, entered.entryName]
    by_cases same : j = i
    · subst same
      rw [entered.free, if_pos rfl, cut, beq_eq_false_iff_ne.mpr (Ne.symm other)]
      simp
    · rw [decide_eq_false same, if_neg same, Bool.false_or]
  -- What is found first is the same entry, with the same sector.
  unfold naming
  dsimp only
  rw [search]
  refine Option.map_congr fun j member => ?_
  obtain ⟨both, -, -⟩ := List.find?_range_eq_some.mp member
  rw [Bool.and_eq_true] at both
  rw [entered.entrySector, if_neg]
  rintro rfl
  rw [entered.free] at both
  cases both.1

/-- Names stay unique when a name is added that was not there. -/
theorem uniqueNames (tree : Tree disk) (found : IsDirectory disk parent)
    (unique : UniqueNames disk) (absent : (dirAt disk parent).findIndex last = none) :
    UniqueNames after := by
  intro s isDirectory j inside k inside' inUse inUse' same
  rcases ((gains.adds tree found).directory_iff s).mp isDirectory with before | ⟨rfl, listing⟩
  swap
  · -- A new directory has no names.
    rw [(gains.fresh.dir listing).2 j inside] at inUse
    cases inUse
  -- The directory is the parent, or one that has not changed.
  by_cases here : s = parent
  swap
  · rw [gains.changed.dirAt_other tree before here] at inUse inUse' same
    exact unique s before j inside k inside' inUse inUse' same
  subst here
  rw [Directory.findIndex_eq_none] at absent
  rw [gains.entered.inUse, Bool.or_eq_true, decide_eq_true_iff] at inUse inUse'
  rw [gains.entered.entryName, gains.entered.entryName] at same
  -- Each of the two entries is the new one, or was there before.
  by_cases first : j = i
  · by_cases second : k = i
    · rw [first, second]
    · -- The old one cannot have the new name.
      rw [if_pos first, if_neg second] at same
      exact absurd same.symm (absent k inside' (inUse'.resolve_left second))
  · -- Nor can the other one.
    by_cases second : k = i
    · rw [if_neg first, if_pos second] at same
      exact absurd same (absent j inside (inUse.resolve_left first))
    · -- Both were there before.
      rw [if_neg first, if_neg second] at same
      exact unique s before j inside k inside' (inUse.resolve_left first)
        (inUse'.resolve_left second) same

end Gains

namespace Loses

variable (loses : Loses disk after parent i) (inside : i < numDirEntries)

include loses inside

/-- A directory that has lost an entry names what the others name. -/
theorem find_eq (name : List Byte) : (naming after).lookup parent name =
    ((List.range numDirEntries).find? fun j => !decide (j = i) && ((dirAt disk parent).inUse j &&
      (dirAt disk parent).entryName j == name)).map (dirAt disk parent).entrySector := by
  have table := Directory.length_table_dirAt disk parent
  unfold naming
  dsimp only
  -- The table has one entry marked as unused.
  rw [loses.dir]
  congr 1
  · funext j
    -- The sector of an entry is not touched.
    exact Directory.entrySector_setInUse table inside false j
  · congr 1
    funext j
    rw [Directory.inUse_setInUse, Directory.entryName_setInUse table inside]
    -- The entry that was removed is unused, and the others are as they were.
    by_cases same : j = i
    · rw [if_pos same, decide_eq_true same]
      rfl
    · rw [if_neg same, decide_eq_false same]
      rfl

/-- Every other name stands for what it did. -/
theorem lookup_other (other : name ≠ (dirAt disk parent).entryName i) :
    (naming after).lookup parent name = (naming disk).lookup parent name := by
  rw [loses.find_eq inside]
  unfold naming
  dsimp only
  congr 2
  funext j
  by_cases same : j = i
  · rw [same, beq_eq_false_iff_ne.mpr (Ne.symm other)]
    simp
  · rw [decide_eq_false same]
    rfl

/-- The name of the entry stands for nothing any more. -/
theorem lookup_self (found : IsDirectory disk parent) (unique : UniqueNames disk)
    (inUse : (dirAt disk parent).inUse i = true) :
    (naming after).lookup parent ((dirAt disk parent).entryName i) = none := by
  rw [loses.find_eq inside, Option.map_eq_none_iff, List.find?_eq_none]
  intro j member
  rw [Bool.and_eq_true, Bool.and_eq_true, beq_iff_eq, Bool.not_eq_true', decide_eq_false_iff_not]
  rintro ⟨other, inUse', same⟩
  exact other (unique parent found j (List.mem_range.mp member) i inside inUse' inUse same)

/-- Names stay unique when one is removed. -/
theorem uniqueNames (tree : Tree disk) (unique : UniqueNames disk) : UniqueNames after := by
  -- Both names were there before the removal.
  intro s isDirectory j inside' k inside'' inUse inUse' same
  have before := (loses.isHeader_old tree inside (isHeader_of_directory isDirectory)).2 s isDirectory
  -- In the parent neither is the one that was removed.
  by_cases here : s = parent
  · subst here
    have table := Directory.length_table_dirAt disk s
    rw [loses.dir, Directory.inUse_setInUse] at inUse inUse'
    rw [loses.dir, Directory.entryName_setInUse table inside,
      Directory.entryName_setInUse table inside] at same
    by_cases first : j = i
    · rw [if_pos first] at inUse
      cases inUse
    by_cases second : k = i
    · rw [if_pos second] at inUse'
      cases inUse'
    rw [if_neg first] at inUse
    rw [if_neg second] at inUse'
    exact unique s before j inside' k inside'' inUse inUse' same
  · -- The other directories have not changed.
    rw [loses.changed.dirAt_other tree before here] at inUse inUse' same
    exact unique s before j inside' k inside'' inUse inUse' same

end Loses

end Changes

/-- Nothing that is owned has changed. -/
def OwnedKept (disk after : Disk) : Prop := ∀ owner s, Owns disk owner s → after s = disk s

namespace OwnedKept

variable (kept : OwnedKept disk after) (tree : Tree disk)

include kept

/-- Not even the root has changed. -/
theorem changedAt : ChangedAt disk after directorySector :=
  fun owner s owns _ _ => kept owner s owns

include tree

/-- Every directory is as it was. -/
theorem dirAt_same (found : IsDirectory disk sector) : dirAt after sector = dirAt disk sector := by
  refine dirAt_congr (kept.changedAt.header (isHeader_of_directory found)) fun n inside => ?_
  exact kept _ _ (owns_slot (isHeader_of_directory found) (tree.directory_block found inside).2)

/-- The same directories are found. -/
theorem isDirectory_iff (sector : Int) : IsDirectory after sector ↔ IsDirectory disk sector := by
  refine Holdings.directory_iff_of_same (fun s => kept.changedAt.lists_iff) (fun s found => ?_)
    sector
  unfold holdings
  dsimp only
  rw [kept.dirAt_same tree found]

/-- The same sectors are owned. -/
theorem owns_old {owner : Owner Int} {s : Int} (owns : Owns after owner s) : Owns disk owner s := by
  have lists := fun s => @ChangedAt.lists_iff disk after directorySector s kept.changedAt
  have entries : ∀ directory, IsDirectory disk directory →
      (holdings after).entry directory = (holdings disk).entry directory := by
    intro directory found
    unfold holdings
    dsimp only
    rw [kept.dirAt_same tree found]
  rcases (Holdings.owns_iff_of_same lists entries owner s).mp owns with
    ⟨before, -⟩ | ⟨record, j, rfl, isHeader, used⟩
  · exact before
  · rw [(kept.changedAt.part isHeader).2.2] at used
    exact .part isHeader used

/-- The tree is in order as long as nothing that it owns has changed. -/
theorem stillTree : Tree after := by
  have old : ∀ {owner s}, Owns after owner s → Owns disk owner s := fun owns =>
    kept.owns_old tree owns
  have header : ∀ {s}, IsHeader after s → IsHeader disk s := by
    intro s isHeader
    refine ((Holdings.record_iff_of_same (fun s => kept.changedAt.lists_iff)
      (fun directory found => ?_)) s).mp isHeader
    unfold holdings
    dsimp only
    rw [kept.dirAt_same tree found]
  refine ⟨fun owner other s first second => tree.unshared owner other s (old first) (old second),
    fun owner s owns => tree.onDisk owner s (old owns),
    fun s isHeader => kept.changedAt.laid tree (header isHeader), fun s isDirectory => ?_⟩
  refine kept.changedAt.directoryFile tree ((kept.isDirectory_iff tree s).mp isDirectory) ?_
  rw [kept.dirAt_same tree .root]

/-- Names stay unique as long as nothing that is owned has changed. -/
theorem uniqueNames (unique : UniqueNames disk) : UniqueNames after := by
  intro s isDirectory
  have found := (kept.isDirectory_iff tree s).mp isDirectory
  rw [kept.dirAt_same tree found]
  exact unique s found

end OwnedKept

section Calls

variable {fs : FileSystem} {newSector : Int}

/-- A header that is new stays so as long as only what is owned changes. -/
theorem FreshHeader.kept (fresh : FreshHeader disk disk sector)
    (same : ∀ s, (∀ owner, ¬ Owns disk owner s) → after s = disk s) : FreshHeader disk after sector := by
  -- Neither the header nor its sectors are owned yet, so nothing of the file has changed.
  have untouched : Untouched disk after sector :=
    ⟨same sector fresh.unowned, fun j there => same _ (fresh.parts j there)⟩
  obtain ⟨header, slots⟩ := untouched.header
  refine ⟨fresh.onDisk, untouched.laid fresh.laid, ?_, fresh.unowned, fun j there => ?_,
    fun isDir => ?_⟩
  · rw [header]
    exact fresh.self
  · rw [slots] at there ⊢
    exact fresh.parts j there
  · rw [header] at isDir
    exact untouched.emptyDirectory fresh.laid (fresh.dir isDir)

/-- A change of one directory leaves alone what nobody owns. -/
theorem Directory.Changed.unowned {dir : Directory} (changed : Changed disk after parent dir)
    (tree : Tree disk) (found : IsDirectory disk parent) {s : Int}
    (unowned : ∀ owner, ¬ Owns disk owner s) : after s = disk s := by
  refine changed.kept s fun n inside same => ?_
  have there := (tree.directory_block found inside).2
  exact unowned _ (same ▸ owns_slot (isHeader_of_directory found) there)

/-- The directory that a path leads into has no entry of its last name, and a place for one. -/
structure Addable (disk : Disk) (path : List Byte) (parent : Int) (last : List Byte) : Prop where
  leads : Leads disk directorySector path parent last
  absent : (dirAt disk parent).findIndex last = none
  room : ∃ i < numDirEntries, (dirAt disk parent).inUse i = false

/-- `Add` changes the parent directory as `AddInCurrentDir` does, and else leaves everything. -/
theorem add_changes (tree : Tree disk) (mounted : fs.Mounted disk) (some : components path ≠ [])
    (fresh : FreshHeader disk disk newSector) :
    Fs.Yields disk (fs.directoryCall (.add path newSector)) fun added after =>
      (added = true ∧ ∃ parent last i, Addable disk path parent last ∧
        Gains disk after parent last i newSector ∧ (∀ j < i, (dirAt disk parent).inUse j = true) ∧
        (dirAt disk parent).addInCurrentDir last newSector = .some (dirAt after parent)) ∨
      (added = false ∧ after = disk ∧ ∀ parent last, ¬ Addable disk path parent last) := by
  -- The root is read, and the parent's table is looked through.
  have small := inInt_of_onDisk fresh.onDisk
  refine (FileSystem.rootDirectory_reads tree.readable mounted).bind ((Directory.changeParent_cases
    tree (skipelem_isSome some) (Directory.tidy_add small)).mono ?_)
  rintro _ after (⟨rfl, parent, last, dir, leads, adds, changed⟩ | ⟨rfl, rfl, refused⟩)
  -- The table has taken the entry, in the first place that was free.
  · have found := leads.isDirectory .root
    rcases Directory.addInCurrentDir_cases (Directory.length_table_dirAt disk parent) small last with
      ⟨absent, i, before, dir', adds', entered⟩ | ⟨none, -⟩
    · cases adds.symm.trans adds'
      have gains : Gains disk after parent last i newSector :=
        ⟨changed.changedAt tree found, changed.dir.symm ▸ entered,
          fresh.kept fun s => changed.unowned tree found⟩
      exact .inl ⟨rfl, parent, last, i, ⟨leads, absent, i, entered.inside, entered.free⟩, gains,
        before, changed.dir.symm ▸ adds⟩
    · cases none.symm.trans adds
  -- The table has refused: the name is there, or no place is free.
  · refine .inr ⟨rfl, rfl, fun parent last able => ?_⟩
    have none := refused parent last able.leads
    rcases Directory.addInCurrentDir_cases (Directory.length_table_dirAt after parent) small last with
      ⟨-, i, -, dir, adds, -⟩ | ⟨-, there | full⟩
    · cases none.symm.trans adds
    · exact there able.absent
    · obtain ⟨i, inside, free⟩ := able.room
      rw [full i inside] at free
      cases free

/-- `Add` adds an entry where it can, and else leaves everything as it is. -/
theorem add_yields (tree : Tree disk) (mounted : fs.Mounted disk) (some : components path ≠ [])
    (fresh : FreshHeader disk disk newSector) :
    Fs.Yields disk (fs.directoryCall (.add path newSector)) fun added after =>
      (added = true ∧ ∃ parent last i, Addable disk path parent last ∧
        Gains disk after parent last i newSector) ∨
      (added = false ∧ after = disk ∧ ∀ parent last, ¬ Addable disk path parent last) := by
  refine (add_changes tree mounted some fresh).mono ?_
  rintro _ _ (⟨rfl, parent, last, i, able, gains, -⟩ | refused)
  · exact .inl ⟨rfl, parent, last, i, able, gains⟩
  · exact .inr refused

/-- `Remove` removes the entry that a path names, and else leaves everything as it is. -/
theorem remove_yields (tree : Tree disk) (mounted : fs.Mounted disk) (some : components path ≠ []) :
    Fs.Yields disk (fs.directoryCall (.remove path)) fun removed after =>
      (removed = true ∧ ∃ parent last i, Leads disk directorySector path parent last ∧
        (dirAt disk parent).findIndex last = .some i ∧ Loses disk after parent i) ∨
      (removed = false ∧ after = disk ∧ ∀ parent last, Leads disk directorySector path parent last →
        (dirAt disk parent).findIndex last = none) := by
  refine (FileSystem.rootDirectory_reads tree.readable mounted).bind ((Directory.changeParent_cases
    tree (skipelem_isSome some) Directory.tidy_remove).mono ?_)
  rintro _ after (⟨rfl, parent, last, dir, leads, removes, changed⟩ | ⟨rfl, rfl, refused⟩)
  · obtain ⟨i, search, rfl⟩ := Option.map_eq_some_iff.mp removes
    exact .inl ⟨rfl, parent, last, i, leads, search,
      changed.changedAt tree (leads.isDirectory .root), changed.dir⟩
  · exact .inr ⟨rfl, rfl, fun parent last leads =>
      Option.map_eq_none_iff.mp (refused parent last leads)⟩

end Calls

section Obeys

variable {fs : FileSystem} {newSector : Int}

/-- The root directory is read, and a path is looked up by a walk down the tree. -/
theorem findPath_reads (readable : Readable disk) (mounted : fs.Mounted disk)
    (some : components path ≠ []) : Fs.Reads disk (fs.findPath path)
      (((naming disk).find directorySector (components path)).getD (-1)) :=
  (FileSystem.rootDirectory_reads readable mounted).bind (find_treeWalk readable some).1

/-- Every path that does not start with this one finds what it found before. -/
def OthersKept (fs : FileSystem) (disk after : Disk) (path : List Byte) : Prop :=
  ∀ other, components other ≠ [] → ¬ components path <+: components other →
    ∃ result, Fs.Reads disk (fs.findPath other) result ∧ Fs.Reads after (fs.findPath other) result

/-- The number of entries of a directory that are in use. -/
def entriesInUse (disk : Disk) (sector : Int) : Nat :=
  (List.range numDirEntries).countP (dirAt disk sector).inUse

/-- `Add` has done what it should. -/
structure AddObeys (fs : FileSystem) (disk after : Disk) (path : List Byte) (newSector : Int)
    (added : Bool) : Prop where
  possible : added = true ↔ ∃ parent,
    (naming disk).walk directorySector (components path).dropLast = some parent ∧
      ((components path).getLast?.bind ((naming disk).lookup parent)) = none ∧
      entriesInUse disk parent < numDirEntries
  found : added = true → Fs.Reads after (fs.findPath path) newSector
  others : OthersKept fs disk after path
  refused : added = false → after = disk

/-- `Remove` has done what it should. -/
structure RemoveObeys (fs : FileSystem) (disk after : Disk) (path : List Byte) (removed : Bool) :
    Prop where
  possible : removed = true ↔ ((naming disk).find directorySector (components path)).isSome = true
  gone : removed = true → Fs.Reads after (fs.findPath path) (-1)
  others : OthersKept fs disk after path
  refused : removed = false → after = disk

/-- A directory has a place for an entry exactly if fewer than all are in use. -/
theorem entriesInUse_lt : entriesInUse disk sector < numDirEntries ↔
    ∃ i < numDirEntries, (dirAt disk sector).inUse i = false := by
  have all := List.countP_le_length (p := (dirAt disk sector).inUse) (l := List.range numDirEntries)
  rw [List.length_range] at all
  have full : entriesInUse disk sector = numDirEntries ↔
      ∀ i ∈ List.range numDirEntries, (dirAt disk sector).inUse i = true := by
    rw [← List.countP_eq_length, List.length_range]
    rfl
  unfold entriesInUse at full ⊢
  rw [Nat.lt_iff_le_and_ne, and_iff_right all, Ne, full]
  simp only [List.mem_range, not_forall, Bool.not_eq_true, exists_prop]

/-- A path leads to a place for its last name exactly if the walk of the others ends at one. -/
theorem addable_iff (readable : Readable disk) {names : List (List Byte)}
    (split : components path = names ++ [last]) : Addable disk path parent last ↔
      (naming disk).walk directorySector names = some parent ∧
        (naming disk).lookup parent last = none ∧ entriesInUse disk parent < numDirEntries := by
  -- A path leads to a parent if the walk along all but its last name does.
  have leads : Leads disk directorySector path parent last ↔
      (naming disk).walk directorySector names = some parent := by
    rw [readable.leads_iff_walk .root]
    constructor
    · rintro ⟨names', same, led⟩
      obtain ⟨rfl, -⟩ := List.append_inj' (split.symm.trans same) rfl
      exact led
    · exact fun led => ⟨names, split, led⟩
  constructor
  · -- The three parts of being addable are those of the walk.
    intro able
    refine ⟨leads.mp able.leads, ?_, entriesInUse_lt.mpr able.room⟩
    rw [lookup_eq able.leads.cut, able.absent]
    rfl
  · rintro ⟨led, absent, room⟩
    have leads := leads.mpr led
    rw [lookup_eq leads.cut, Option.map_eq_none_iff] at absent
    exact ⟨leads, absent, entriesInUse_lt.mp room⟩

/-- Nothing that a path finds changes as long as the disk does not. -/
theorem othersKept_refl (readable : Readable disk) (mounted : fs.Mounted disk) (path : List Byte) :
    OthersKept fs disk disk path :=
  fun _ some _ => ⟨_, findPath_reads readable mounted some, findPath_reads readable mounted some⟩

/-- A change of one name changes only the paths that start with it. -/
theorem othersKept_of_changes (tree : Tree disk) (mounted : fs.Mounted disk) (still : Tree after)
    (mounted' : fs.Mounted after) {names : List (List Byte)}
    (split : components path = names ++ [last])
    (led : (naming disk).walk directorySector names = some parent)
    (changes : (naming disk).Changes (naming after) directorySector parent last) :
    OthersKept fs disk after path := by
  intro other some apart
  rw [split] at apart
  refine ⟨_, findPath_reads tree.readable mounted some, ?_⟩
  rw [← changes.find_other tree.single led apart]
  exact findPath_reads still.readable mounted' some

/-- The file system stays mounted as long as no header changes. -/
theorem ChangedAt.mounted (changed : ChangedAt disk after parent) (mounted : fs.Mounted disk) :
    fs.Mounted after := by
  have map := (changed.part (.fixed .freeMap)).1
  have root := (changed.part (isHeader_root disk)).1
  exact ⟨mounted.freeMap.trans map.symm, mounted.directory.trans root.symm⟩

/-- An entry that has been added is found. -/
theorem addObeys_of_gains (tree : Tree disk) (mounted : fs.Mounted disk)
    (some : components path ≠ []) (able : Addable disk path parent last)
    (gains : Gains disk after parent last i newSector) :
    AddObeys fs disk after path newSector true := by
  have found := able.leads.isDirectory .root
  have cut := able.leads.cut
  -- The tree is still one, and its names stand for what they stood for, but for the new one.
  have still := gains.stillTree tree found
  have mounted' := gains.changed.mounted mounted
  obtain ⟨names, split, led⟩ := (tree.readable.leads_iff_walk .root).mp able.leads
  have changes := gains.changed.changes tree fun name => gains.lookup_other cut
  refine ⟨⟨fun _ => ⟨parent, ?_⟩, fun _ => rfl⟩, fun _ => ?_,
    othersKept_of_changes tree mounted still mounted' split led changes, (nomatch ·)⟩
  · -- The place that the names lead to had room.
    have parts := (addable_iff tree.readable split).mp able
    rw [split, List.dropLast_concat, List.getLast?_concat]
    exact parts
  · -- The new name leads to the new header.
    have finds := changes.find_self tree.single led
    have reads := findPath_reads still.readable mounted' some
    rw [split, finds, gains.lookup_self able.absent cut] at reads
    exact reads

/-- An entry that has been removed is found no longer. -/
theorem removeObeys_of_loses (tree : Tree disk) (mounted : fs.Mounted disk)
    (unique : UniqueNames disk) (some : components path ≠ [])
    (leads : Leads disk directorySector path parent last)
    (named : (dirAt disk parent).findIndex last = .some i) (loses : Loses disk after parent i) :
    RemoveObeys fs disk after path true := by
  have found := leads.isDirectory .root
  obtain ⟨inside, inUse, entryName, -⟩ := Directory.findIndex_some named
  rw [leads.cut] at entryName
  have entry := entry_eq_some.mpr ⟨⟨inside, inUse⟩, rfl⟩
  have still := loses.stillTree tree found entry
  have mounted' := loses.changed.mounted mounted
  obtain ⟨names, split, led⟩ := (tree.readable.leads_iff_walk .root).mp leads
  -- In the parent the name is gone, and every other name leads where it led.
  have changes : (naming disk).Changes (naming after) directorySector parent last :=
    loses.changed.changes tree fun name other => loses.lookup_other inside (entryName ▸ other)
  refine ⟨⟨fun _ => ?_, fun _ => rfl⟩, fun _ => ?_,
    othersKept_of_changes tree mounted still mounted' split led changes, (nomatch ·)⟩
  · -- The name was there.
    rw [split, Naming.find_concat, led, Option.bind_some, lookup_eq leads.cut, named]
    rfl
  · -- It leads nowhere now.
    have finds := changes.find_self tree.single led
    have reads := findPath_reads still.readable mounted' some
    rw [← entryName, loses.lookup_self inside found unique inUse, entryName] at finds
    rw [split, finds] at reads
    exact reads

end Obeys

/-- A call on a path that has components, with a header that is new, or a write where it is free. -/
def DirectoryCall.Proper (session : Session) : DirectoryCall → Prop
  | .add path newSector =>
    components path ≠ [] ∧ FreshHeader session.disk session.disk newSector
  | .remove path => components path ≠ []
  | .prepare sector _ => ∀ owner, ¬ Owns session.disk owner sector

namespace Session

variable {session next : Session}

/-- The directories are a tree with unique names, and the root is open. -/
structure Shelved (session : Session) : Prop where
  tree : Tree session.disk
  unique : UniqueNames session.disk
  mounted : session.fs.Mounted session.disk

/-- `Add` can always be called, and does what it should. -/
theorem Shelved.add (shelved : Shelved session) {newSector : Int} (some : components path ≠ [])
    (fresh : FreshHeader session.disk session.disk newSector) :
    ∃ added next, session.perform (session.fs.directoryCall (.add path newSector)) =
      .some (added, next) ∧ AddObeys session.fs session.disk next.disk path newSector added ∧
        Shelved next := by
  obtain ⟨tree, unique, mounted⟩ := shelved
  obtain ⟨added, next, performed, outcome, fs, -⟩ :=
    -- The call goes through.
    perform_yields (add_yields tree mounted some fresh)
  refine ⟨added, next, performed, ?_⟩
  rcases outcome with ⟨rfl, parent, last, i, able, gains⟩ | ⟨rfl, same, unable⟩
  · -- The entry has been added.
    have found := able.leads.isDirectory .root
    refine ⟨addObeys_of_gains tree mounted some able gains, gains.stillTree tree found,
      gains.uniqueNames tree found unique able.absent, ?_⟩
    rw [fs]
    exact gains.changed.mounted mounted
  -- Nothing has changed, and what would allow the addition does not hold.
  · refine ⟨⟨⟨(nomatch ·), ?_⟩, (nomatch ·), ?_, fun _ => same⟩, ?_, ?_, ?_⟩
    · rintro ⟨parent, led, absent, room⟩
      have split := (List.dropLast_append_getLast some).symm
      rw [List.getLast?_eq_getLast_of_ne_nil some] at absent
      exact absurd ((addable_iff tree.readable split).mpr ⟨led, absent, room⟩) (unable _ _)
    all_goals rw [same]
    · exact othersKept_refl tree.readable mounted path
    · exact tree
    · exact unique
    · rw [fs]
      exact mounted

/-- `Remove` can always be called, and does what it should. -/
theorem Shelved.remove (shelved : Shelved session) (some : components path ≠ []) :
    ∃ removed next, session.perform (session.fs.directoryCall (.remove path)) =
      .some (removed, next) ∧ RemoveObeys session.fs session.disk next.disk path removed ∧
        Shelved next := by
  obtain ⟨tree, unique, mounted⟩ := shelved
  -- The call goes through.
  obtain ⟨removed, next, performed, outcome, fs, -⟩ :=
    perform_yields (remove_yields tree mounted some)
  refine ⟨removed, next, performed, ?_⟩
  rcases outcome with ⟨rfl, parent, last, i, leads, named, loses⟩ | ⟨rfl, same, absent⟩
  · -- The entry has been removed.
    have found := leads.isDirectory .root
    obtain ⟨inside, inUse, -, -⟩ := Directory.findIndex_some named
    have entry := entry_eq_some.mpr ⟨⟨inside, inUse⟩, rfl⟩
    refine ⟨removeObeys_of_loses tree mounted unique some leads named loses,
      loses.stillTree tree found entry, loses.uniqueNames inside tree unique, ?_⟩
    rw [fs]
    exact loses.changed.mounted mounted
  · -- Nothing has changed, since the name is not there.
    refine ⟨⟨⟨(nomatch ·), fun resolves => ?_⟩, (nomatch ·), ?_, fun _ => same⟩, ?_, ?_, ?_⟩
    · -- A path that resolves leads to a name that is there.
      have split := (List.dropLast_append_getLast some).symm
      rw [split, Naming.find_concat] at resolves
      obtain ⟨cell, named⟩ := Option.isSome_iff_exists.mp resolves
      obtain ⟨parent, led, named⟩ := Option.bind_eq_some_iff.mp named
      have leads := (tree.readable.leads_iff_walk .root).mpr ⟨_, split, led⟩
      rw [lookup_eq leads.cut, absent parent _ leads] at named
      cases named
    all_goals rw [same]
    · exact othersKept_refl tree.readable mounted path
    · exact tree
    · exact unique
    · rw [fs]
      exact mounted

/-- Whatever is written where nothing is owned, nothing that is owned changes. -/
theorem ownedKept_of_prepare {data : Sector} {value : Bool}
    (unowned : ∀ owner, ¬ Owns session.disk owner sector)
    (performed : session.perform (session.fs.directoryCall (.prepare sector data)) =
      some (value, next)) : OwnedKept session.disk next.disk ∧ next.fs = session.fs := by
  by_cases onDisk : OnDisk sector
  swap
  · -- There is no such sector, so it cannot be written.
    have refuses : Fs.Refuses session.disk (session.fs.directoryCall (.prepare sector data)) := by
      refine Program.Refuses.bind_first fun world _ => ?_
      simp only [Fs.writeSector, Program.run_ask, World.serve, Disk.writeRequest, if_neg onDisk]
      rfl
    rw [perform_refused refuses] at performed
    cases performed
  -- Any sector that is owned is another one.
  have writes : Fs.Yields session.disk (session.fs.directoryCall (.prepare sector data))
      fun _ after => OwnedKept session.disk after := by
    refine Fs.writeSector_bind onDisk (Program.Yields.pure fun owner s owns => ?_)
    exact Function.update_of_ne (fun same : s = sector => unowned owner (same ▸ owns)) _ _
  obtain ⟨kept, fs, -⟩ := perform_holds writes performed
  exact ⟨kept, fs⟩

/-- Each proper call keeps the tree in order. -/
theorem Shelved.step (shelved : Shelved session) {call : DirectoryCall}
    (proper : call.Proper session) (stepped : session.directoryStep call = some next) :
    Shelved next := by
  obtain ⟨⟨value, ended⟩, performed, rfl⟩ := Option.map_eq_some_iff.mp stepped
  -- The two calls of the source, and what is written where nobody owns the sector.
  cases call with
  | add path newSector =>
    obtain ⟨added, next, performed', -, still⟩ := shelved.add proper.1 proper.2
    cases performed.symm.trans performed'
    exact still
  | remove path =>
    obtain ⟨removed, next, performed', -, still⟩ := shelved.remove proper
    cases performed.symm.trans performed'
    exact still
  | prepare sector data =>
    obtain ⟨tree, unique, mounted⟩ := shelved
    obtain ⟨kept, fs⟩ := ownedKept_of_prepare proper performed
    refine ⟨kept.stillTree tree, kept.uniqueNames tree unique, ?_⟩
    dsimp only
    rw [fs]
    exact kept.changedAt.mounted mounted

/-- The directories of a formatted disk are in order. -/
theorem Shelved.formatted {world : World} {started : Session}
    (formats : Session.format world = some started) : Shelved started := by
  obtain ⟨⟨⟨given, systemOnly⟩, mounted, -⟩, -⟩ := Session.formatted formats
  refine ⟨systemOnly.sound.tree, fun s found i inside j _ inUse => ?_, mounted⟩
  rw [systemOnly.isDirectory found, systemOnly.empty i inside] at inUse
  cases inUse

end Session

/-- In every state that is reached, names are unique, and `Add` and `Remove` do what they should. -/
theorem directories_treeOfMaps {world : World} {started session : Session}
    {calls : List DirectoryCall} (formats : Session.format world = some started)
    (proper : EveryStep Session.directoryStep (fun session call => call.Proper session) started calls)
    (ran : replay Session.directoryStep started calls = some session) :
    UniqueNames session.disk ∧
      (∀ path newSector, components path ≠ [] → FreshHeader session.disk session.disk newSector →
        ∃ added next, session.perform (session.fs.directoryCall (.add path newSector)) =
          some (added, next) ∧ AddObeys session.fs session.disk next.disk path newSector added) ∧
      ∀ path, components path ≠ [] →
        ∃ removed next, session.perform (session.fs.directoryCall (.remove path)) =
          some (removed, next) ∧ RemoveObeys session.fs session.disk next.disk path removed := by
  -- The tree is in order in every state of the run.
  have shelved : session.Shelved := replay_guarded
    (fun _ _ _ shelved proper stepped => Session.Shelved.step shelved proper stepped)
    (Session.Shelved.formatted formats) proper ran
  -- So each of the two calls does what it should.
  refine ⟨shelved.unique, fun path newSector some fresh => ?_, fun path some => ?_⟩
  · obtain ⟨added, next, performed, obeys, -⟩ := shelved.add some fresh
    exact ⟨added, next, performed, obeys⟩
  · obtain ⟨removed, next, performed, obeys, -⟩ := shelved.remove some
    exact ⟨removed, next, performed, obeys⟩

/-- A header of an empty file can be put into a free sector of a formatted disk. -/
theorem Session.prepare_succeeds {world : World} {started : Session}
    (formats : Session.format world = some started) : ∃ newSector middle,
      started.directoryStep (.prepare newSector (FileHeader.ofSectors newSector [] 0).toSector) =
        some middle ∧ (∀ owner, ¬ Owns started.disk owner newSector) ∧
      FreshHeader middle.disk middle.disk newSector ∧ OwnedKept started.disk middle.disk := by
  -- On a formatted disk there is a free sector.
  have formatted := (Session.formatted formats).1
  obtain ⟨given, systemOnly⟩ := formatted.systemOnly
  have sound := systemOnly.sound
  obtain ⟨newSector, inside, clear⟩ :=
    Bitmap.exists_clear_of_numClear_pos (freeMapOn started.disk) (by rw [formatted.free]; decide)
  have inRange := sound.ofDisk.free inside clear
  -- Nobody owns it.
  have unowned : ∀ owner, ¬ Owns started.disk owner newSector := by
    refine sound.unowned fun marked => ?_
    unfold Marked at marked
    rw [Int.toNat_natCast, clear] at marked
    cases marked
  have onDisk : OnDisk newSector := ⟨by omega, by exact_mod_cast inRange.2⟩
  generalize header : FileHeader.ofSectors newSector [] 0 = hdr
  have laid : ∀ disk, hdr.Laid disk := fun disk => by
    rw [← header]
    exact FileHeader.ofSectors_laid disk (by decide) onDisk (by decide) (by decide)
      fun s member => absurd member List.not_mem_nil
  have slot : ∀ disk j, hdr.slot disk j = 0 := fun disk j => by
    rw [← header, FileHeader.slot_ofSectors disk (by decide)]
    rfl
  -- The header is written to the free sector, and is a new one there.
  have writes : Fs.Yields started.disk (started.fs.directoryCall (.prepare newSector hdr.toSector))
      fun _ after => OwnedKept started.disk after ∧ headerAt after newSector = hdr := by
    refine Fs.writeSector_bind onDisk (Program.Yields.pure ⟨fun owner s owns => ?_, ?_⟩)
    · exact Function.update_of_ne (fun same : s = newSector => unowned owner (same ▸ owns)) _ _
    · unfold headerAt
      rw [Function.update_self]
      exact FileHeader.ofSector_toSector (laid started.disk).small
  obtain ⟨value, middle, performed, ⟨kept, same⟩, -, -⟩ := Session.perform_yields writes
  have prepares : started.directoryStep (.prepare newSector hdr.toSector) = some middle := by
    unfold Session.directoryStep
    rw [performed]
    rfl
  -- Nothing else is owned in the new header.
  have fresh : FreshHeader middle.disk middle.disk newSector := by
    refine ⟨onDisk, same ▸ laid _, ?_, fun owner owns => unowned owner (kept.owns_old sound.tree owns),
      fun j there => absurd (same ▸ slot _ j) there, fun isDir => ?_⟩
    · rw [same, ← header]
      rfl
    · rw [same, ← header] at isDir
      cases isDir
  exact ⟨newSector, middle, header ▸ prepares, unowned, fresh, kept⟩

/-- A header of an empty file is put into a free sector of a formatted disk, and added as a file. -/
theorem directories_treeOfMaps_oneFile : ∃ started session newSector,
    Session.format (World.ofDisk fun _ => .ofBytes []) = some started ∧
      replay Session.directoryStep started
        [.prepare newSector (FileHeader.ofSectors newSector [] 0).toSector, .add [97] newSector] =
          some session ∧
      UniqueNames session.disk ∧
      (∀ path newSector, components path ≠ [] → FreshHeader session.disk session.disk newSector →
        ∃ added next, session.perform (session.fs.directoryCall (.add path newSector)) =
          some (added, next) ∧ AddObeys session.fs session.disk next.disk path newSector added) ∧
      ∀ path, components path ≠ [] →
        ∃ removed next, session.perform (session.fs.directoryCall (.remove path)) =
          some (removed, next) ∧ RemoveObeys session.fs session.disk next.disk path removed := by
  -- The disk is formatted, and a header is put into a free sector.
  obtain ⟨started, formats⟩ := Session.format_succeeds (World.ofDisk fun _ => .ofBytes [])
  obtain ⟨newSector, middle, prepares, unowned, fresh, -⟩ := Session.prepare_succeeds formats
  generalize header : (FileHeader.ofSectors newSector [] 0).toSector = data at prepares
  have allowed : DirectoryCall.Proper started (.prepare newSector data) := unowned
  -- The header is prepared first, as a file that no entry names yet.
  have shelved := (Session.Shelved.formatted formats).step allowed prepares
  -- Then it is added under a name.
  have some : components [97] ≠ [] := by decide
  obtain ⟨added, session, adds, -⟩ := shelved.add some fresh
  have step : middle.directoryStep (.add [97] newSector) = .some session := by
    unfold Session.directoryStep
    rw [adds]
    rfl
  -- So the two calls are proper, and the theorem says the rest.
  have proper : EveryStep Session.directoryStep (fun session call => call.Proper session) started
      [.prepare newSector data, .add [97] newSector] :=
    .cons prepares allowed (.cons step ⟨some, fresh⟩ trivial)
  have ran : replay Session.directoryStep started
      [.prepare newSector data, .add [97] newSector] = .some session := by
    rw [replay_cons prepares, replay_cons step]
    rfl
  exact ⟨started, session, newSector, formats, header ▸ ran, directories_treeOfMaps formats proper ran⟩

end Nachos
