import Nachos.Proofs.Filesys.Paths

/-! One entry more or one entry less in the tree of directories, and what is owned afterwards. -/

namespace Nachos

variable {disk after : Disk} {parent sector record : Int}

/-- Of all that is owned, nothing but the map and the two sectors of a directory has changed. -/
def ChangedAt (disk after : Disk) (parent : Int) : Prop :=
  ∀ owner s, Owns disk owner s → owner ≠ .part freeMapSector 0 →
    (∀ n < 2, owner ≠ .part parent n) → after s = disk s

namespace ChangedAt

variable (changed : ChangedAt disk after parent)

include changed

/-- Every header is as it was. -/
theorem header (isHeader : IsHeader disk sector) : after sector = disk sector := by
  obtain ⟨owner, owns, notPart⟩ := isHeader.owned
  exact changed owner sector owns (notPart _ _) fun n _ => notPart _ n

/-- A slot of a header is as it was, apart from the map and the directory. -/
theorem slot (isHeader : IsHeader disk sector) {j : Nat}
    (used : (headerAt disk sector).slot disk j ≠ 0)
    (other : ¬ (sector = freeMapSector ∧ j = 0) ∧ ¬ (sector = parent ∧ j < 2)) :
    after ((headerAt disk sector).slot disk j) = disk ((headerAt disk sector).slot disk j) := by
  refine changed _ _ (owns_slot isHeader used) (fun same => ?_) fun n inside same => ?_
  · cases same
    exact other.1 ⟨rfl, rfl⟩
  · cases same
    exact other.2 ⟨rfl, inside⟩

/-- The index sector of a header, if it has one, is as it was. -/
theorem index (isHeader : IsHeader disk sector) :
    (headerAt disk sector).dataSector numDirect ≠ 0 →
      after ((headerAt disk sector).dataSector numDirect) =
        disk ((headerAt disk sector).dataSector numDirect) := by
  rw [← FileHeader.slot_index disk]
  exact fun used => changed.slot isHeader used ⟨(nomatch ·.2), fun both =>
    absurd both.2 (by decide)⟩

/-- Every header says what it said. -/
theorem part (isHeader : IsHeader disk sector) : headerAt after sector = headerAt disk sector ∧
    (∀ j, (headerAt after sector).slot after j = (headerAt disk sector).slot disk j) ∧
    (holdings after).part sector = (holdings disk).part sector :=
  part_same (changed.header isHeader) (changed.index isHeader)

/-- The same headers are those of directories. -/
theorem lists_iff (isHeader : IsHeader disk sector) :
    (holdings after).lists sector ↔ (holdings disk).lists sector := by
  unfold holdings
  dsimp only
  rw [(changed.part isHeader).1]

/-- A header that is still found is laid out as it was. -/
theorem laid (tree : Tree disk) (isHeader : IsHeader disk sector) :
    (headerAt after sector).Laid after ∧ (headerAt after sector).selfSector = sector := by
  obtain ⟨laid, self⟩ := tree.laid sector isHeader
  rw [(changed.part isHeader).1]
  exact ⟨laid.congr rfl rfl rfl rfl laid.limit (changed.index isHeader), self⟩

/-- Another directory is as it was. -/
theorem dirAt_other (tree : Tree disk) (also : IsDirectory disk sector) (other : sector ≠ parent) :
    dirAt after sector = dirAt disk sector := by
  have isHeader := isHeader_of_directory also
  refine dirAt_congr (changed.header isHeader) fun n inside => ?_
  exact changed.slot isHeader (tree.directory_block also inside).2
    ⟨fun both => tree.directory_ne_map also both.1, fun both => other both.1⟩

/-- A directory that is still found is in order, with the sector that its table names. -/
theorem directoryFile (tree : Tree disk) (also : IsDirectory disk sector)
    (same : (dirAt after parent).sector = (dirAt disk parent).sector) :
    DirectoryFile after sector := by
  have header := (changed.part (isHeader_of_directory also)).1
  refine (tree.directory sector also).congr header ?_
  -- The table that has changed still names its own sector, and the others are as they were.
  by_cases here : sector = parent
  · rw [here]
    exact same
  · rw [changed.dirAt_other tree also here]

end ChangedAt

/-- A directory that has been written is all that has changed. -/
theorem Directory.Changed.changedAt {dir : Directory} (changed : Changed disk after parent dir)
    (tree : Tree disk) (found : IsDirectory disk parent) : ChangedAt disk after parent := by
  intro owner s owns _ notDir
  refine changed.kept s fun n inside same => ?_
  have there := (tree.directory_block found inside).2
  have mine := owns_slot (isHeader_of_directory found) there
  exact notDir n inside (tree.unshared _ _ _ owns (same ▸ mine))

/-- A header that nothing owned, and whose sectors nothing owned either. -/
structure FreshHeader (disk after : Disk) (sector : Int) : Prop where
  onDisk : OnDisk sector
  laid : (headerAt after sector).Laid after
  self : (headerAt after sector).selfSector = sector
  unowned : ∀ owner, ¬ Owns disk owner sector
  parts : ∀ j, (headerAt after sector).slot after j ≠ 0 →
    ∀ owner, ¬ Owns disk owner ((headerAt after sector).slot after j)
  -- A directory that is new is an empty one.
  dir : (headerAt after sector).type = .dir → DirectoryFile after sector ∧
    ∀ i < numDirEntries, (dirAt after sector).inUse i = false

/-- One more entry of a directory names a header that is new. -/
structure Gains (disk after : Disk) (parent : Int) (last : List Byte) (i : Nat) (sector : Int) :
    Prop where
  changed : ChangedAt disk after parent
  entered : Directory.Entered (dirAt disk parent) (dirAt after parent) i last sector
  fresh : FreshHeader disk after sector

namespace Gains

variable {last : List Byte} {i : Nat} (gains : Gains disk after parent last i sector)

include gains

/-- The new header was none before. -/
theorem not_isHeader : ¬ IsHeader disk sector := by
  intro isHeader
  obtain ⟨owner, owns, -⟩ := isHeader.owned
  exact gains.fresh.unowned owner owns

variable (tree : Tree disk) (found : IsDirectory disk parent)

include tree found

/-- The new entry is the only one that is added. -/
theorem adds : (holdings disk).Adds (holdings after) SystemSector directorySector parent i sector := by
  have changed := gains.changed
  have entered := gains.entered
  -- The parts are those of an addition, one by one.
  refine ⟨found, ?_, fun other isHeader => changed.lists_iff isHeader,
    fun other isHeader => (changed.part isHeader).2.2, ?_, fun other also j different => ?_,
    fun listing j => ?_⟩
  · -- The place was free.
    unfold holdings
    dsimp only
    rw [if_neg (by rw [entered.free]; simp)]
  · -- The new entry is the one that was entered.
    refine entry_eq_some.mpr ⟨⟨entered.inside, ?_⟩, ?_⟩
    · rw [entered.inUse]
      simp
    · rw [entered.entrySector, if_pos rfl]
  · -- The other entries have not changed.
    unfold holdings
    dsimp only
    by_cases here : other = parent
    · subst here
      have apart : j ≠ i := different.resolve_left (not_not_intro rfl)
      rw [entered.inUse, entered.entrySector, if_neg apart, decide_eq_false apart, Bool.false_or]
    · rw [changed.dirAt_other tree also here]
  · -- Only a directory lists anything, and a new one is empty.
    unfold holdings
    dsimp only
    rw [if_neg]
    rintro ⟨inside, inUse⟩
    rw [(gains.fresh.dir listing).2 j inside] at inUse
    cases inUse

/-- What owns a sector afterwards owned it before, or is the new entry or the new header. -/
theorem owns_iff (owner : Owner Int) (s : Int) :
    Owns after owner s ↔ Owns disk owner s ∨ (owner = .entry parent i ∧ s = sector) ∨
      ∃ j, owner = .part sector j ∧ (headerAt after sector).slot after j = s ∧ s ≠ 0 := by
  have all := (gains.adds tree found).owns_iff gains.not_isHeader owner s
  simp only [part_eq_some] at all
  exact all

/-- The tree is in order with one more entry. -/
theorem stillTree : Tree after := by
  -- The names have one more entry.
  have adds := gains.adds tree found
  have fresh := gains.fresh
  -- What is new had no owner, and its parts are apart from each other.
  refine ⟨?_, fun owner s owns => ?_, fun s isHeader => ?_, fun s isDirectory => ?_⟩
  · refine tree.unshared.extend (fun owner s => (gains.owns_iff tree found owner s).mp) ?_ ?_
    · rintro owner s (⟨-, rfl⟩ | ⟨j, -, rfl, there⟩) other
      · exact fresh.unowned other
      · exact fresh.parts j there other
    · rintro owner other s (⟨rfl, rfl⟩ | ⟨j, rfl, same, there⟩) (⟨rfl, also⟩ | ⟨k, rfl, also, -⟩)
      · -- The two owners are the new ones.
        rfl
      · -- The header is not among the sectors of the file.
        have positive : (headerAt after s).slot after k ≠ 0 := by
          intro zero
          exact fresh.unowned _ (show Owns disk (.fixed freeMapSector) s from
            also ▸ zero ▸ .fixed .freeMap)
        exact absurd (also.trans fresh.self.symm) (fresh.laid.inRange k positive).2
      · -- The same the other way round.
        exact absurd ((same.trans also).trans fresh.self.symm)
          (fresh.laid.inRange j (same ▸ there)).2
      · -- Two sectors of the file are apart.
        rw [fresh.laid.apart j k (same ▸ there) (same.trans also.symm)]
  · -- What is owned is on the disk, as it was before or as a new sector.
    rcases (gains.owns_iff tree found owner s).mp owns with old | ⟨-, rfl⟩ | ⟨j, -, rfl, there⟩
    · exact tree.onDisk owner s old
    · exact fresh.onDisk
    · exact (fresh.laid.inRange j there).1
  · -- The headers are laid out: the old ones, and the new one.
    rcases (adds.record_iff s).mp isHeader with old | rfl
    · exact gains.changed.laid tree old
    · exact ⟨fresh.laid, fresh.self⟩
  · -- The directories are in order: the old ones, and the new one if it is one.
    rcases (adds.directory_iff s).mp isDirectory with old | ⟨rfl, listing⟩
    · exact gains.changed.directoryFile tree old gains.entered.sector
    · exact (fresh.dir listing).1

end Gains

/-- One entry of a directory is no longer in use. -/
structure Loses (disk after : Disk) (parent : Int) (i : Nat) : Prop where
  changed : ChangedAt disk after parent
  dir : dirAt after parent = (dirAt disk parent).setInUse i false

namespace Loses

variable {i : Nat} {removed : Int} (loses : Loses disk after parent i) (tree : Tree disk)

section Entries

variable (inside : i < numDirEntries)

include loses tree inside

/-- The entries that are left were there before, and the one of the file is not left. -/
theorem entry_iff {directory : Int} (also : IsDirectory disk directory) {k : Nat} {cell : Int} :
    (holdings after).entry directory k = some cell ↔
      (holdings disk).entry directory k = some cell ∧ ¬ (directory = parent ∧ k = i) := by
  rw [entry_eq_some, entry_eq_some]
  -- Only the table of the parent has changed, and there only one flag.
  by_cases here : directory = parent
  · subst here
    rw [loses.dir, Directory.inUse_setInUse, Directory.entrySector_setInUse
      (Directory.length_table_dirAt disk directory) inside]
    -- The flag of the entry is cleared.
    by_cases same : k = i
    · rw [if_pos same]
      exact ⟨fun both => (nomatch both.1.2), fun both => absurd ⟨rfl, same⟩ both.2⟩
    · -- The other flags are not.
      rw [if_neg same]
      exact ⟨fun both => ⟨both, fun here => same here.2⟩, And.left⟩
  · -- The other tables have not changed.
    rw [loses.changed.dirAt_other tree also here]
    exact ⟨fun both => ⟨both, fun same => here same.1⟩, And.left⟩

/-- A header that is still found was found before. -/
theorem isHeader_old {record : Int} (isHeader : IsHeader after record) :
    IsHeader disk record ∧ ∀ directory, IsDirectory after directory → IsDirectory disk directory := by
  have lists : ∀ cell, IsHeader disk cell → (holdings after).lists cell →
      (holdings disk).lists cell := fun cell isHeader => (loses.changed.lists_iff isHeader).mp
  have entries : ∀ directory, IsDirectory disk directory → ∀ k cell,
      (holdings after).entry directory k = some cell →
        (holdings disk).entry directory k = some cell := fun directory also k cell named =>
    ((loses.entry_iff tree inside also).mp named).1
  exact ⟨isHeader.of_shrunk lists entries, fun directory also => also.of_shrunk lists entries⟩

end Entries

variable (found : IsDirectory disk parent) (named : (holdings disk).entry parent i = some removed)

include loses tree found named

/-- The header of a removed file is found no longer. -/
theorem gone : ¬ IsHeader after removed := by
  have inside := (entry_eq_some.mp named).1.1
  intro isHeader
  -- Whatever it could be found by would own it beside the entry that is gone.
  cases isHeader with
  | fixed placed => cases tree.unshared _ _ _ (.fixed placed) (.entry found named)
  | entry also still =>
    have before := (loses.isHeader_old tree inside (.entry also still)).2 _ also
    obtain ⟨old, other⟩ := (loses.entry_iff tree inside before).mp still
    cases tree.unshared _ _ _ (.entry before old) (.entry found named)
    exact other ⟨rfl, rfl⟩

/-- What owns a sector afterwards owned it before, and the sector is not one of the removed file. -/
theorem owns_old {owner : Owner Int} {s : Int} (owns : Owns after owner s) :
    Owns disk owner s ∧ s ≠ removed ∧
      ∀ j, (headerAt disk removed).slot disk j ≠ 0 → (headerAt disk removed).slot disk j ≠ s := by
  have inside := (entry_eq_some.mp named).1.1
  have gone := loses.gone tree found named
  have header : IsHeader disk removed := .entry found named
  -- One case for each kind of owner: all of them were there before, and are not the removed file.
  cases owns with
  -- A fixed place is no header of a file.
  | fixed placed =>
    have isHeader : IsHeader disk s := .fixed placed
    exact ⟨.fixed placed, fun same => gone (same ▸ .fixed placed),
      fun j there => tree.header_ne_slot isHeader header there⟩
  -- An entry that is left names another header.
  | entry also still =>
    have before := (loses.isHeader_old tree inside (.entry also still)).2 _ also
    obtain ⟨old, -⟩ := (loses.entry_iff tree inside before).mp still
    have isHeader : IsHeader disk s := .entry before old
    exact ⟨.entry before old, fun same => gone (same ▸ .entry also still),
      fun j there => tree.header_ne_slot isHeader header there⟩
  -- A part is that of a header that is left.
  | @part record _ j isHeader used =>
    have before := (loses.isHeader_old tree inside isHeader).1
    rw [(loses.changed.part before).2.2] at used
    obtain ⟨rfl, there⟩ := part_eq_some.mp used
    refine ⟨.part before used, tree.header_ne_slot header before there, fun k also same => ?_⟩
    exact gone ((tree.slot_inj header before also same).1 ▸ isHeader)

/-- The tree is in order with one entry less. -/
theorem stillTree : Tree after := by
  have inside := (entry_eq_some.mp named).1.1
  have old : ∀ {owner s}, Owns after owner s → Owns disk owner s := fun owns =>
    (loses.owns_old tree found named owns).1
  refine ⟨fun owner other s first second => tree.unshared owner other s (old first) (old second),
    fun owner s owns => tree.onDisk owner s (old owns), fun s isHeader => ?_,
    fun s isDirectory => ?_⟩
  · exact loses.changed.laid tree (loses.isHeader_old tree inside isHeader).1
  · have before := (loses.isHeader_old tree inside (isHeader_of_directory isDirectory)).2 s isDirectory
    refine loses.changed.directoryFile tree before ?_
    rw [loses.dir]
    rfl

section Kept

variable (empty : IsDirectory disk removed → ∀ k, (holdings disk).entry removed k = none)

include empty

/-- Without the removed file, which lists nothing, the same directories are found. -/
theorem isDirectory_kept {directory : Int} (also : IsDirectory disk directory)
    (other : directory ≠ removed) : IsDirectory after directory := by
  have inside := (entry_eq_some.mp named).1.1
  induction also with
  | root => exact .root
  | @entry above cell k also listed listing ih =>
    -- The removed file lists nothing, so the directory above is another one.
    have apart : above ≠ removed := by
      rintro rfl
      rw [empty also k] at listed
      cases listed
    have still := (loses.entry_iff tree inside also).mpr ⟨listed, ?_⟩
    · -- The directory is named by an entry that is left.
      exact .entry (ih apart) still
        ((loses.changed.lists_iff (.entry also listed)).mpr listing)
    · -- The entry that was removed named the file.
      rintro ⟨rfl, rfl⟩
      rw [named] at listed
      cases listed
      exact other rfl

/-- What owned a sector still owns it, unless it is one of the removed file. -/
theorem owns_kept {owner : Owner Int} {s : Int} (owns : Owns disk owner s) (notSelf : s ≠ removed)
    (notSlot : ∀ j, (headerAt disk removed).slot disk j ≠ 0 →
      (headerAt disk removed).slot disk j ≠ s) : Owns after owner s := by
  have inside := (entry_eq_some.mp named).1.1
  -- An entry of another header is left, in a directory that is left.
  have entryKept : ∀ {directory k cell}, IsDirectory disk directory →
      (holdings disk).entry directory k = some cell → cell ≠ removed →
        IsDirectory after directory ∧ (holdings after).entry directory k = some cell := by
    intro directory k cell also listed apart
    refine ⟨loses.isDirectory_kept tree found named empty also ?_,
      (loses.entry_iff tree inside also).mpr ⟨listed, ?_⟩⟩
    · -- The file itself listed nothing.
      rintro rfl
      rw [empty also k] at listed
      cases listed
    · -- Its own entry is the one that was removed.
      rintro ⟨rfl, rfl⟩
      rw [named] at listed
      cases listed
      exact apart rfl
  -- The owner is still found, as it is not found through the removed file.
  cases owns with
  | fixed placed => exact .fixed placed
  -- An entry that names another header.
  | entry also listed =>
    obtain ⟨still, listed⟩ := entryKept also listed notSelf
    exact .entry still listed
  -- A part of another header.
  | @part record _ j isHeader used =>
    have apart : record ≠ removed := by
      rintro rfl
      obtain ⟨same, there⟩ := part_eq_some.mp used
      exact notSlot j (same ▸ there) same
    refine .part ?_ (by rw [(loses.changed.part isHeader).2.2]; exact used)
    -- That header is still found.
    cases isHeader with
    | fixed placed => exact .fixed placed
    | entry also listed =>
      obtain ⟨still, listed⟩ := entryKept also listed apart
      exact .entry still listed

end Kept

end Loses

end Nachos
