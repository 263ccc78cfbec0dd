import Nachos.Proofs.Filesys.Sound

/-! Where paths lead on a sound disk, and the directory operations that follow them. -/

namespace Nachos

/-- A path leads from a directory to the last name in it, and to the directory of that name. -/
inductive Leads (disk : Disk) : Int → List Byte → Int → List Byte → Prop
  | last {sector : Int} {path name rest : List Byte}
    (split : Directory.skipelem path = some (name, rest)) (ends : rest.headD 0 = 0) :
    Leads disk sector path sector name
  | more {sector parent : Int} {path name rest last : List Byte}
    (split : Directory.skipelem path = some (name, rest)) (goesOn : rest.headD 0 ≠ 0)
    (found : (dirAt disk sector).dirlookup name ≠ -1)
    (listing : (headerAt disk ((dirAt disk sector).dirlookup name)).type = .dir)
    (later : Leads disk ((dirAt disk sector).dirlookup name) rest parent last) :
    Leads disk sector path parent last

variable {disk after : Disk} {sector parent : Int} {path name rest last : List Byte}

/-- A name that is found is that of an entry in use. -/
theorem Directory.findIndex_some {dir : Directory} {i : Nat} (found : dir.findIndex name = some i) :
    i < numDirEntries ∧ dir.inUse i = true ∧
      dir.entryName i = cString fileNameMaxLen name ∧ dir.dirlookup name = dir.entrySector i := by
  have here := found
  unfold findIndex at found
  obtain ⟨both, member, -⟩ := List.find?_range_eq_some.mp found
  rw [Bool.and_eq_true, beq_iff_eq] at both
  exact ⟨by simpa using member, both.1, both.2, by unfold dirlookup; rw [here]⟩

/-- A name is looked up in a directory: it is that of a header, or it is not there. -/
theorem Readable.dirlookup_cases (readable : Readable disk) (found : IsDirectory disk sector)
    (name : List Byte) :
    ((dirAt disk sector).findIndex name = none ∧ (dirAt disk sector).dirlookup name = -1) ∨
      (IsHeader disk ((dirAt disk sector).dirlookup name) ∧
        (dirAt disk sector).findIndex name ≠ none ∧ (dirAt disk sector).dirlookup name ≠ -1) := by
  cases search : (dirAt disk sector).findIndex name with
  -- The name is not found, so the lookup gives minus one.
  | none =>
    refine .inl ⟨rfl, ?_⟩
    unfold Directory.dirlookup
    rw [search]
  -- It is that of an entry in use.
  | some i =>
    obtain ⟨inside, inUse, -, lookup⟩ := Directory.findIndex_some search
    have header := isHeader_of_entry found inside inUse
    -- The sector of an entry is on the disk.
    rw [lookup]
    have onDisk := (readable.onDisk _ header).1
    exact .inr ⟨header, nofun, by omega⟩

/-- A directory that is found by its name is one. -/
theorem isDirectory_dirlookup (found : IsDirectory disk sector)
    (there : (dirAt disk sector).dirlookup name ≠ -1)
    (listing : (headerAt disk ((dirAt disk sector).dirlookup name)).type = .dir) :
    IsDirectory disk ((dirAt disk sector).dirlookup name) := by
  cases search : (dirAt disk sector).findIndex name with
  | none =>
    unfold Directory.dirlookup at there
    rw [search] at there
    exact absurd rfl there
  | some i =>
    obtain ⟨inside, inUse, -, lookup⟩ := Directory.findIndex_some search
    rw [lookup] at listing ⊢
    exact .entry found (entry_eq_some.mpr ⟨⟨inside, inUse⟩, rfl⟩) listing

/-- A path with one component leads to it, and a longer one goes on behind the first. -/
theorem leads_iff (split : Directory.skipelem path = some (name, rest)) :
    Leads disk sector path parent last ↔
      if rest.headD 0 = 0 then parent = sector ∧ last = name
      else (dirAt disk sector).dirlookup name ≠ -1 ∧
        (headerAt disk ((dirAt disk sector).dirlookup name)).type = .dir ∧
        Leads disk ((dirAt disk sector).dirlookup name) rest parent last := by
  -- `skipelem` splits the path in one way, so that the split of the case is the given one.
  constructor
  · intro leads
    cases leads with
    -- The path ends at this component.
    | last split' ends =>
      cases split.symm.trans split'
      rw [if_pos ends]
      exact ⟨rfl, rfl⟩
    -- It goes on in the directory that is named.
    | more split' goesOn found listing later =>
      cases split.symm.trans split'
      rw [if_neg goesOn]
      exact ⟨found, listing, later⟩
  · -- The other way, by what is left of the path.
    by_cases ends : rest.headD 0 = 0
    · rw [if_pos ends]
      rintro ⟨rfl, rfl⟩
      exact .last split ends
    · rw [if_neg ends]
      rintro ⟨found, listing, later⟩
      exact .more split ends found listing later

/-- A path leads to one place. -/
theorem Leads.unique {parent' : Int} {last' : List Byte} (leads : Leads disk sector path parent last)
    (also : Leads disk sector path parent' last') : parent = parent' ∧ last = last' := by
  induction leads with
  | last split ends =>
    have here := (leads_iff split).mp also
    rw [if_pos ends] at here
    exact ⟨here.1.symm, here.2.symm⟩
  | more split goesOn _ _ _ ih =>
    have later := (leads_iff split).mp also
    rw [if_neg goesOn] at later
    exact ih later.2.2

/-- A path leads from a directory to a directory. -/
theorem Leads.isDirectory (leads : Leads disk sector path parent last)
    (found : IsDirectory disk sector) : IsDirectory disk parent := by
  induction leads with
  | last _ _ => exact found
  | more _ _ there listing _ ih => exact ih (isDirectory_dirlookup found there listing)

/-- A path leads where it led, as long as the directories and the kinds of headers are the same. -/
theorem Leads.congr (leads : Leads disk sector path parent last) (found : IsDirectory disk sector)
    (tables : ∀ s, IsDirectory disk s → dirAt after s = dirAt disk s)
    (types : ∀ s, IsHeader disk s → (headerAt after s).type = (headerAt disk s).type) :
    Leads after sector path parent last := by
  -- Over the components: each is looked up in a table that is as it was.
  induction leads with
  -- The last component is not looked up here.
  | last split ends => exact .last split ends
  | more split goesOn there listing _ ih =>
    -- The next directory is one of those that are the same.
    have next := isDirectory_dirlookup found there listing
    have table := tables _ found
    -- The lookup, the kind and the rest are as they were.
    refine .more split goesOn ?_ ?_ ?_
    · rw [table]
      exact there
    · rw [table, types _ (isHeader_of_directory next)]
      exact listing
    · rw [table]
      exact ih next

/-- What `namex` answers for a path that leads somewhere. -/
def answer (disk : Disk) (parent : Int) (last : List Byte) (nameparent : Bool) : Int × List Byte :=
  (if nameparent then parent else (dirAt disk parent).dirlookup last, last)

namespace Directory

/-- `namex` follows a path to where it leads, or finds that it leads nowhere. -/
theorem namexWithin_reads (readable : Readable disk) (more : Nat) :
    ∀ {sector path}, path.length < more → IsDirectory disk sector →
      (skipelem path).isSome = true →
      (∃ parent last, Leads disk sector path parent last ∧ ∀ nameparent,
        Fs.Reads disk (namexWithin more (dirAt disk sector) path nameparent)
          (answer disk parent last nameparent)) ∨
      ((∀ parent last, ¬ Leads disk sector path parent last) ∧ ∃ name, ∀ nameparent,
        Fs.Reads disk (namexWithin more (dirAt disk sector) path nameparent) (-1, name)) := by
  -- By induction on how many components there may be: each turn takes at least one character.
  induction more with
  | zero => exact fun short => absurd short (Nat.not_lt_zero _)
  | succ more ih =>
    intro sector path short found component
    obtain ⟨⟨name, rest⟩, split⟩ := Option.isSome_iff_exists.mp component
    unfold namexWithin
    simp only [split]
    have steps : ∀ {parent last}, Leads disk sector path parent last ↔ _ := leads_iff split
    by_cases ends : rest.headD 0 = 0
    · -- This is the last component.
      refine .inl ⟨sector, name, .last split ends, fun nameparent => ?_⟩
      rw [if_pos ends]
      have self := readable.self sector found
      unfold answer
      rw [self]
      exact Fs.Reads.pure disk _
    simp only [if_neg ends] at steps ⊢
    -- The name is not in this directory.
    by_cases there : (dirAt disk sector).dirlookup name = -1
    · refine .inr ⟨fun parent last leads => (steps.mp leads).1 there, name, fun nameparent => ?_⟩
      rw [if_pos there]
      exact Fs.Reads.pure disk _
    simp only [if_neg there]
    -- It is there, and so it names a header that can be read.
    have header : IsHeader disk ((dirAt disk sector).dirlookup name) :=
      ((readable.dirlookup_cases found name).resolve_left fun both => there both.2).1
    -- Its sector is on the disk.
    have onDisk := readable.onDisk _ header
    by_cases listing : (headerAt disk ((dirAt disk sector).dirlookup name)).type = .dir
    swap
    · -- A component on the way is not a directory.
      refine .inr ⟨fun parent last leads => listing (steps.mp leads).2.1, name, fun nameparent => ?_⟩
      refine (FileHeader.fetchFrom_reads onDisk).bind ?_
      rw [if_pos listing]
      exact Fs.Reads.pure disk _
    -- The path goes on in another directory.
    have next := isDirectory_dirlookup found there listing
    -- Entering it reads the header and the table.
    have enter : ∀ nameparent {value}, Fs.Reads disk (namexWithin more
          (dirAt disk ((dirAt disk sector).dirlookup name)) rest nameparent) value →
        Fs.Reads disk (do
          let hdr ← FileHeader.fetchFrom ((dirAt disk sector).dirlookup name)
          if hdr.type ≠ .dir then return (-1, name)
          else
            let nextDirOpenFile ← OpenFile.new ((dirAt disk sector).dirlookup name)
            let nextDir ← fetchFrom (← newEmpty) nextDirOpenFile
            namexWithin more nextDir rest nameparent) value := by
      intro nameparent value reads
      refine (FileHeader.fetchFrom_reads onDisk).bind ?_
      rw [if_neg (not_not_intro listing)]
      refine (OpenFile.new_reads onDisk).bind ((newEmpty_finds disk).bind fun dir table => ?_)
      exact (fetchFrom_reads (readable.found next) (readable.limit _ next) table 0).bind reads
    -- The rest of the path has a component, and is shorter.
    obtain ⟨following, tail, component'⟩ := skipelem_more split ends
    have shorter := skipelem_shorter split
    -- It leads somewhere in there, or nowhere.
    rcases @ih _ rest (by omega) next (by rw [component']; rfl) with
      ⟨parent, last, leads, reads⟩ | ⟨nowhere, last, reads⟩
    · exact .inl ⟨parent, last, .more split ends there listing leads,
        fun nameparent => enter nameparent (reads nameparent)⟩
    · exact .inr ⟨fun parent last leads => nowhere parent last (steps.mp leads).2.2, last,
        fun nameparent => enter nameparent (reads nameparent)⟩

/-- A path with a component is followed from the root. -/
theorem namex_reads (readable : Readable disk) (component : (skipelem path).isSome = true) :
    (∃ parent last, Leads disk directorySector path parent last ∧ ∀ nameparent,
        Fs.Reads disk ((dirAt disk directorySector).namex path nameparent)
          (answer disk parent last nameparent)) ∨
      ((∀ parent last, ¬ Leads disk directorySector path parent last) ∧ ∃ name, ∀ nameparent,
        Fs.Reads disk ((dirAt disk directorySector).namex path nameparent) (-1, name)) :=
  namexWithin_reads readable (path.length + 1) (Nat.lt_succ_self _) .root component

/-- A path that leads somewhere is followed there. -/
theorem namex_leads (readable : Readable disk) (leads : Leads disk directorySector path parent last)
    (nameparent : Bool) : Fs.Reads disk ((dirAt disk directorySector).namex path nameparent)
      (answer disk parent last nameparent) := by
  have component : (skipelem path).isSome = true := by
    cases leads with
    | last split _ => rw [split]; rfl
    | more split _ _ _ _ => rw [split]; rfl
  rcases namex_reads readable component with ⟨parent', last', also, reads⟩ | ⟨nowhere, -⟩
  · obtain ⟨rfl, rfl⟩ := leads.unique also
    exact reads nameparent
  · exact absurd leads (nowhere parent last)

/-- `Find` looks the last name of a path up where the path leads. -/
theorem find_leads (readable : Readable disk) (leads : Leads disk directorySector path parent last) :
    Fs.Reads disk ((dirAt disk directorySector).find path) ((dirAt disk parent).dirlookup last) :=
  (namex_leads readable leads false).bind (Fs.Reads.pure disk _)

/-- `Find` finds nothing where no path leads. -/
theorem find_nowhere (readable : Readable disk) (component : (skipelem path).isSome = true)
    (nowhere : ∀ parent last, ¬ Leads disk directorySector path parent last) :
    Fs.Reads disk ((dirAt disk directorySector).find path) (-1) := by
  rcases namex_reads readable component with ⟨parent, last, leads, -⟩ | ⟨-, name, reads⟩
  · exact absurd leads (nowhere parent last)
  · exact (reads false).bind (Fs.Reads.pure disk _)

/-- A directory that has been changed in its two sectors, and nothing else. -/
structure Changed (disk after : Disk) (sector : Int) (dir : Directory) : Prop where
  kept : ∀ s, (∀ n < 2, s ≠ (headerAt disk sector).slot disk n) → after s = disk s
  dir : dirAt after sector = dir

/-- A change of a directory leaves every header as it is. -/
theorem Changed.header {dir : Directory} (changed : Changed disk after parent dir)
    (tree : Tree disk) (found : IsDirectory disk parent) (header : IsHeader disk sector) :
    after sector = disk sector := by
  refine changed.kept sector fun n inside same => ?_
  have used := (tree.directory_block found inside).2
  exact tree.header_ne_slot header (isHeader_of_directory found) used same.symm

/-- A directory that has been written back is there when it is read again. -/
theorem WroteBack.dirAt_eq {dir : Directory} {hdr : FileHeader}
    (wrote : WroteBack disk after dir hdr)
    (header : headerAt after sector = { hdr with limit := directoryLimit })
    (table : dir.table.length = directoryFileSize) (onDisk : OnDisk dir.sector) :
    dirAt after sector = dir := by
  have four := length_intBytes dir.sector
  have small := inInt_of_onDisk onDisk
  -- The bytes of the file are those written: four for the sector, and then the table.
  have byte : ∀ k, (headerAt after sector).byteAt after k = hdr.byteAt after k := by
    intro k
    rw [header, OpenFile.byteAt_limit]
  -- The first four bytes give the sector.
  have number : (headerAt after sector).bytesAt after 0 4 = intBytes dir.sector := by
    apply List.ext_getElem (by rw [FileHeader.length_bytesAt, four])
    intro k inside other
    have here := wrote.bytes k (show k < 204 by omega)
    rw [Directory.bytes, List.getD_append _ _ _ _ other, List.getD_eq_getElem?_getD,
      List.getElem?_eq_getElem other, Option.getD_some] at here
    simp only [FileHeader.bytesAt, List.getElem_map, List.getElem_range, Nat.zero_add, byte, here]
  -- The others give the table.
  have entries : (headerAt after sector).bytesAt after 4 directoryFileSize = dir.table := by
    apply List.ext_getElem (by rw [FileHeader.length_bytesAt, table])
    intro k inside other
    rw [FileHeader.length_bytesAt] at inside
    have small : k < 200 := inside
    have here := wrote.bytes (4 + k) (show 4 + k < 204 by omega)
    rw [Directory.bytes, List.getD_append_right _ _ _ _ (by omega), four, Nat.add_sub_cancel_left,
      List.getD_eq_getElem?_getD, List.getElem?_eq_getElem other, Option.getD_some] at here
    simp only [FileHeader.bytesAt, List.getElem_map, List.getElem_range, byte, here]
  unfold dirAt
  rw [number, entries]
  -- The sector is what its bytes encode.
  have back := intAt_intBytes small []
  rw [List.append_nil] at back
  rw [back]

/-- Writing a directory back to its file changes its two sectors only. -/
theorem WroteBack.changed {dir : Directory} (wrote : WroteBack disk after dir (headerAt disk sector))
    (tree : Tree disk) (found : IsDirectory disk sector)
    (table : dir.table.length = directoryFileSize) (same : dir.sector = sector) :
    Changed disk after sector dir := by
  have isHeader := isHeader_of_directory found
  -- The limit in the header is that of a directory, before and after.
  obtain ⟨laid, self⟩ := tree.laid sector isHeader
  have inOrder := tree.directory sector found
  have limited : { headerAt disk sector with limit := (directoryLimit : Int) } =
      headerAt disk sector := by
    rw [← inOrder.limit]
  -- The header is written as it was.
  have header : after sector = disk sector := by
    have stored := wrote.stored
    rw [limited, self] at stored
    rw [stored]
    exact FileHeader.toSector_ofSector _
  refine ⟨fun s other => ?_, wrote.dirAt_eq ?_ table (same ▸ tree.header_onDisk isHeader)⟩
  · -- Other sectors are not written to, unless they are the table's.
    by_cases here : s = sector
    · rw [here, header]
    · refine wrote.frame s (by rw [self]; exact here) fun n counted => ?_
      rw [inOrder.nsectors] at counted
      rw [(tree.directory_block found counted).1]
      exact other n counted
  · rw [limited]
    exact congrArg FileHeader.ofSector header

variable {change : Directory → List Byte → Option Directory}

/-- The directory that a path leads into is changed. -/
theorem changeParent_yields (tree : Tree disk) (leads : Leads disk directorySector path parent last)
    {dir : Directory} (changes : change (dirAt disk parent) last = some dir)
    (table : dir.table.length = directoryFileSize) (same : dir.sector = parent) :
    Fs.Yields disk ((dirAt disk directorySector).changeParent path change) fun given after =>
      given = true ∧ Changed disk after parent dir := by
  have found := leads.isDirectory .root
  have header := isHeader_of_directory found
  have onDisk := tree.header_onDisk header
  have inOrder := tree.directory parent found
  have laid := (tree.laid parent header).1
  -- There is room for the table.
  have room : (directoryLimit : Int) ≤ (headerAt disk parent).capacity := by
    rw [laid.capacity, inOrder.nsectors]
    decide
  -- The path is walked, the directory read and changed, and then it is written back.
  unfold changeParent
  refine (namex_leads tree.readable leads true).bind ?_
  unfold answer
  rw [if_pos rfl]
  dsimp only
  -- The path leads to a directory, so its number is not negative.
  rw [if_neg (by omega)]
  refine (newEmpty_finds disk).bind fun pdir long => ?_
  refine (OpenFile.new_reads onDisk).bind ?_
  refine (fetchFrom_reads (tree.readable.found found) (tree.readable.limit _ found) long 0).bind ?_
  -- The change is made in memory.
  rw [changes]
  refine (writeBack_yields laid room table).bind ?_
  rintro file after ⟨-, wrote⟩
  -- It is on the disk after that.
  exact Program.Yields.pure ⟨rfl, wrote.changed tree found table same⟩

/-- A directory that cannot be changed is left as it is. -/
theorem changeParent_none (readable : Readable disk) (leads : Leads disk directorySector path parent last)
    (refused : change (dirAt disk parent) last = none) :
    Fs.Reads disk ((dirAt disk directorySector).changeParent path change) false := by
  have found := leads.isDirectory .root
  have header := isHeader_of_directory found
  have onDisk := readable.onDisk _ header
  -- As before, but for the change, which is refused, so that nothing is written.
  unfold changeParent
  refine (namex_leads readable leads true).bind ?_
  unfold answer
  rw [if_pos rfl]
  dsimp only
  -- The directory itself is found and read.
  rw [if_neg (by omega)]
  refine (newEmpty_finds disk).bind fun pdir long => ?_
  refine (OpenFile.new_reads onDisk).bind ?_
  refine (fetchFrom_reads (readable.found found) (readable.limit _ found) long 0).bind ?_
  rw [refused]
  exact Fs.Reads.pure disk _

/-- Nothing is changed where no path leads. -/
theorem changeParent_nowhere (readable : Readable disk) (component : (skipelem path).isSome = true)
    (nowhere : ∀ parent last, ¬ Leads disk directorySector path parent last) :
    Fs.Reads disk ((dirAt disk directorySector).changeParent path change) false := by
  rcases namex_reads readable component with ⟨parent, last, leads, -⟩ | ⟨-, name, reads⟩
  · exact absurd leads (nowhere parent last)
  · unfold changeParent
    refine (reads true).bind ?_
    dsimp only
    rw [if_pos rfl]
    exact Fs.Reads.pure disk _

/-- A change of a directory keeps its size and its sector. -/
def Tidy (change : Directory → List Byte → Option Directory) : Prop :=
  ∀ dir name dir', dir.table.length = directoryFileSize → change dir name = some dir' →
    dir'.table.length = directoryFileSize ∧ dir'.sector = dir.sector

/-- A name that is added keeps the size and the sector. -/
theorem tidy_add {newSector : Int} (small : InInt newSector) :
    Tidy fun dir name => dir.addInCurrentDir name newSector := by
  intro dir name dir' table adds
  rcases addInCurrentDir_cases table small name with ⟨-, i, -, dir'', adds', entered⟩ | ⟨none, -⟩
  · cases adds.symm.trans adds'
    exact ⟨entered.table, entered.sector⟩
  · cases none.symm.trans adds

/-- So does one that is removed. -/
theorem tidy_remove : Tidy removeInCurrentDir := by
  intro dir name dir' table removes
  obtain ⟨i, named, rfl⟩ := Option.map_eq_some_iff.mp removes
  exact ⟨length_setInUse table (findIndex_some named).1 false, rfl⟩

/-- A change is made in the directory that the path leads into, or nothing happens. -/
theorem changeParent_cases (tree : Tree disk) (component : (skipelem path).isSome = true)
    (tidy : Tidy change) :
    Fs.Yields disk ((dirAt disk directorySector).changeParent path change) fun given after =>
      (given = true ∧ ∃ parent last dir, Leads disk directorySector path parent last ∧
        change (dirAt disk parent) last = some dir ∧ Changed disk after parent dir) ∨
      (given = false ∧ after = disk ∧ ∀ parent last, Leads disk directorySector path parent last →
        change (dirAt disk parent) last = none) := by
  -- Either the path leads to no directory, or to just one.
  rcases namex_reads tree.readable component with ⟨parent, last, leads, -⟩ | ⟨nowhere, -⟩
  swap
  · -- The walk fails, and nothing is written.
    refine (changeParent_nowhere tree.readable component nowhere).mono ?_
    rintro _ _ ⟨rfl, rfl⟩
    exact .inr ⟨rfl, rfl, fun parent last leads => absurd leads (nowhere parent last)⟩
  cases changes : change (dirAt disk parent) last with
  -- The change is refused.
  | none =>
    refine (changeParent_none tree.readable leads changes).mono ?_
    rintro _ _ ⟨rfl, rfl⟩
    refine .inr ⟨rfl, rfl, fun parent' last' also => ?_⟩
    obtain ⟨rfl, rfl⟩ := leads.unique also
    exact changes
  -- The change is made where the path leads.
  | some dir =>
    obtain ⟨table, same⟩ := tidy _ last dir (length_table_dirAt disk parent) changes
    have self := (tree.directory parent (leads.isDirectory .root)).self
    refine (changeParent_yields tree leads changes table (same.trans self)).mono ?_
    rintro _ after ⟨rfl, changed⟩
    exact .inl ⟨rfl, parent, last, dir, leads, changes, changed⟩

end Directory

/-- The root directory is read through the handle that the file system keeps. -/
theorem FileSystem.rootDirectory_reads {fs : FileSystem} (readable : Readable disk)
    (mounted : fs.Mounted disk) :
    Fs.Reads disk fs.rootDirectory (dirAt disk directorySector) := by
  obtain ⟨freeMapFile, hdr, position⟩ := fs
  obtain ⟨-, same⟩ := mounted
  dsimp only at same
  subst same
  refine (Directory.newEmpty_finds disk).bind fun dir table => ?_
  exact Directory.fetchFrom_reads (readable.found .root) (readable.limit _ .root) table position

end Nachos
