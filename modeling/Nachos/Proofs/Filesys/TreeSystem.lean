import Mathlib.Data.Finset.Card
import Nachos.Proofs.Filesys.Pipe
import Nachos.Proofs.Threads.Main
import Nachos.Theory.FileTree

/-! A tree of named files: how it is used, and which tree the directories on a disk make up. -/

namespace Nachos

/-- A file tree with byte strings for names and for contents. -/
abbrev ByteTree : Type := FileTree (List Byte) (List Byte)

namespace ByteTree

/-- A directory has all the entries that it can have. -/
def Crowded (tree : ByteTree) (path : List (List Byte)) : Prop :=
  ∃ names : Finset (List Byte), numDirEntries ≤ names.card ∧
    ∀ name ∈ names, tree (path ++ [name]) ≠ none

/-- There is a place for a new file: nothing is there yet, and its directory has room. -/
structure Vacant (tree : ByteTree) (path : List (List Byte)) : Prop where
  absent : tree path = none
  parent : tree path.dropLast = some .directory
  room : ¬ tree.Crowded path.dropLast

/-- What is in the file at a path, if there is one. -/
def fileAt (tree : ByteTree) (path : List (List Byte)) : Option (List Byte) :=
  match tree path with
  | some (.file contents) => some contents
  | _ => none

end ByteTree

/-- What a new file is. -/
def newNode : FileType → FileNode (List Byte)
  | .dir => .directory
  | _ => .file []

/-- An open file: its path, and where it is in the file. -/
structure TreeFile where
  path : List (List Byte)
  position : Int

/-- A tree and a pipe, and the files that are open, in the order of opening. -/
structure TreeSystem where
  tree : ByteTree
  pipe : List Byte
  files : List TreeFile

namespace TreeSystem

/-- The bytes from a position on, as many as are asked for and as there are. -/
def portion (contents : List Byte) (position count : Int) : List Byte :=
  if position < 0 then [] else (contents.drop position.toNat).take count.toNat

/-- Something is to be written, and in the file or right behind it. -/
def Writable (contents source : List Byte) (position : Int) : Prop :=
  source ≠ [] ∧ 0 ≤ position ∧ position ≤ contents.length

instance (contents source : List Byte) (position : Int) :
    Decidable (Writable contents source position) :=
  inferInstanceAs (Decidable (_ ∧ _ ∧ _))

/-- An open file with what is in it. -/
def held (sys : TreeSystem) (handle : Nat) : Option (TreeFile × List Byte) := do
  let file ← sys.files[handle]?
  return (file, ← sys.tree.fileAt file.path)

/-- An open file has moved. -/
def move (sys : TreeSystem) (handle : Nat) (file : TreeFile) (position : Int) : TreeSystem :=
  { sys with files := sys.files.set handle { file with position } }

/-- Write to a file. What was behind the bytes that are written is cut off. -/
def store (sys : TreeSystem) (path : List (List Byte)) (contents source : List Byte)
    (position : Int) : Int × TreeSystem :=
  if Writable contents source position then
    (source.length,
      { sys with tree := sys.tree.put path (.file (contents.take position.toNat ++ source)) })
  else (0, sys)

open Classical in
/-- What a call gives and leaves. A new file also needs a sector, which no tree shows. -/
noncomputable def use (full : Bool) (sys : TreeSystem) : PipeCall → Option (Answer × TreeSystem)
  | .call (.create name kind) =>
    if full = false ∧ sys.tree.Vacant (components name) then
      some (⟨1, []⟩, { sys with tree := sys.tree.put (components name) (newNode kind) })
    else some (⟨0, []⟩, sys)
  | .call (.«open» name) =>
    if sys.tree (components name) = none then some (⟨0, []⟩, sys)
    else some (⟨1, []⟩, { sys with files := sys.files ++ [⟨components name, 0⟩] })
  | .call (.remove name) =>
    if sys.tree (components name) = none then some (⟨0, []⟩, sys)
    else some (⟨1, []⟩, { sys with tree := sys.tree.prune (components name) })
  | .call (.seek handle position) => do
    let file ← sys.files[handle]?
    return (⟨1, []⟩, sys.move handle file position)
  | .call (.read handle numBytes) => do
    let (file, contents) ← sys.held handle
    let into := portion contents file.position numBytes
    return (⟨into.length, into⟩, sys.move handle file (file.position + into.length))
  | .call (.readAt handle numBytes position) => do
    let (_, contents) ← sys.held handle
    let into := portion contents position numBytes
    return (⟨into.length, into⟩, sys)
  | .call (.write handle source) => do
    let (file, contents) ← sys.held handle
    let (result, sys) := sys.store file.path contents source file.position
    return (⟨result, []⟩, sys.move handle file (file.position + result))
  | .call (.writeAt handle source position) => do
    let (file, contents) ← sys.held handle
    let (result, sys) := sys.store file.path contents source position
    return (⟨result, []⟩, sys)
  | .readPipe => some (⟨sys.pipe.length, sys.pipe⟩, sys)
  | .writePipe data => some (⟨0, []⟩, if data = [] then sys else { sys with pipe := data })

end TreeSystem

/-- The tree that the directories on a disk make up, from the root on. -/
def fileTree (disk : Disk) : ByteTree :=
  (naming disk).tree directorySector fun sector => (headerAt disk sector).contents disk

variable {disk after : Disk} {parent sector record : Int} {path : List Byte} {last : List Byte}
  {names other : List (List Byte)} {i : Nat}

section Tree

/-- What is found is named by an entry of a directory. -/
theorem named_of_find (found : (naming disk).find directorySector names = some sector) :
    ∃ directory i, IsDirectory disk directory ∧
      (holdings disk).entry directory i = some sector := by
  rcases List.eq_nil_or_concat names with rfl | ⟨front, name, rfl⟩
  · cases found
  rw [List.concat_eq_append, Naming.find_concat] at found
  obtain ⟨directory, led, named⟩ := Option.bind_eq_some_iff.mp found
  obtain ⟨i, entry, -⟩ := entry_of_lookup named
  exact ⟨directory, i, isDirectory_of_walk .root led, entry⟩

/-- What is found has a header, which is none of the system. -/
theorem Tree.header_of_find (tree : Tree disk)
    (found : (naming disk).find directorySector names = some sector) :
    IsHeader disk sector ∧ ¬ SystemSector sector := by
  obtain ⟨directory, i, isDirectory, entry⟩ := named_of_find found
  refine ⟨.entry isDirectory entry, fun system => ?_⟩
  cases tree.unshared _ _ _ (.fixed system) (.entry isDirectory entry)

/-- What is found and is no directory is a file that can be written. -/
theorem Tree.isFile_of_find (tree : Tree disk)
    (found : (naming disk).find directorySector names = some sector)
    (plain : (naming disk).lists sector = false) : IsFile disk sector := by
  obtain ⟨isHeader, notSystem⟩ := tree.header_of_find found
  refine ⟨isHeader, ?_, fun isDir => ?_⟩
  · rintro rfl
    exact notSystem .freeMap
  · rw [naming_lists.mpr isDir] at plain
    cases plain

/-- An entry of a directory is there in the tree if it is in use. -/
theorem fileTree_ne_none (led : (naming disk).walk directorySector names = some parent)
    (name : List Byte) : fileTree disk (names ++ [name]) ≠ none ↔
      ∃ i < numDirEntries, (dirAt disk parent).inUse i = true ∧
        (dirAt disk parent).entryName i = name := by
  unfold fileTree
  rw [Naming.tree_of_ne_nil (by simp), Naming.find_concat, led, Option.bind_some, Ne,
    Option.map_eq_none_iff]
  unfold naming
  simp

/-- A directory is crowded exactly if all of its entries are in use. -/
theorem crowded_iff (led : (naming disk).walk directorySector names = some parent)
    (unique : UniqueNames disk) : (fileTree disk).Crowded names ↔
      ¬ ∃ i < numDirEntries, (dirAt disk parent).inUse i = false := by
  unfold ByteTree.Crowded
  simp only [fileTree_ne_none led]
  constructor
  · rintro ⟨some, enough, there⟩ ⟨i, inside, free⟩
    -- The names are those of the other entries, and these are too few.
    have among : some ⊆
        ((Finset.range numDirEntries).erase i).image (dirAt disk parent).entryName := by
      intro name member
      obtain ⟨j, inside', inUse, same⟩ := there name member
      refine Finset.mem_image.mpr ⟨j, Finset.mem_erase.mpr ⟨?_, Finset.mem_range.mpr inside'⟩, same⟩
      rintro rfl
      rw [free] at inUse
      cases inUse
    have few := (Finset.card_le_card among).trans Finset.card_image_le
    rw [Finset.card_erase_of_mem (Finset.mem_range.mpr inside), Finset.card_range] at few
    simp only [numDirEntries] at *
    omega
  · -- All entries are in use.
    intro full
    have inUse : ∀ i < numDirEntries, (dirAt disk parent).inUse i = true := by
      intro i inside
      by_contra free
      exact full ⟨i, inside, by simpa using free⟩
    -- No two of the entries have the same name.
    refine ⟨(Finset.range numDirEntries).image (dirAt disk parent).entryName, ?_, ?_⟩
    · rw [Finset.card_image_of_injOn, Finset.card_range]
      intro i inside j inside' same
      rw [Finset.coe_range, Set.mem_Iio] at inside inside'
      exact unique parent (isDirectory_of_walk .root led) i inside j inside' (inUse i inside)
        (inUse j inside') same
    · -- Each of these names is that of an entry.
      intro name member
      obtain ⟨i, inside, same⟩ := Finset.mem_image.mp member
      rw [Finset.mem_range] at inside
      exact ⟨i, inside, inUse i inside, same⟩

/-- There is a place in the tree exactly if a name can be added to a directory. -/
theorem vacant_iff (readable : Readable disk) (unique : UniqueNames disk)
    (some : components path ≠ []) : (fileTree disk).Vacant (components path) ↔
      ∃ parent last, Addable disk path parent last := by
  obtain ⟨names, last, split⟩ : ∃ names last, components path = names ++ [last] :=
    ⟨_, _, (List.dropLast_append_getLast some).symm⟩
  have absent : ∀ {parent}, (naming disk).walk directorySector names = .some parent →
      (fileTree disk (names ++ [last]) = none ↔ (naming disk).lookup parent last = none) := by
    intro parent led
    unfold fileTree
    rw [Naming.tree_of_ne_nil (by simp), Naming.find_concat, led, Option.bind_some,
      Option.map_eq_none_iff]
  constructor
  · -- One way: the place is vacant, so the directory has an entry for it.
    rintro ⟨nothing, isDirectory, room⟩
    rw [split] at nothing
    rw [split, List.dropLast_concat] at isDirectory room
    obtain ⟨parent, led⟩ := Naming.tree_eq_directory.mp isDirectory
    rw [crowded_iff led unique, not_not] at room
    exact ⟨parent, last, (addable_iff readable split).mpr
      ⟨led, (absent led).mp nothing, entriesInUse_lt.mpr room⟩⟩
  · -- The other way: the name can be added.
    rintro ⟨parent, last', able⟩
    obtain ⟨names', same, -⟩ := (readable.leads_iff_walk .root).mp able.leads
    obtain ⟨-, here⟩ := List.append_inj' (split.symm.trans same) rfl
    cases here
    obtain ⟨led, nothing, room⟩ := (addable_iff readable split).mp able
    rw [split]
    -- Nothing has the name, the directory is there, and it has room.
    refine ⟨(absent led).mpr nothing, ?_, ?_⟩
    · rw [List.dropLast_concat]
      exact Naming.tree_eq_directory.mpr ⟨parent, led⟩
    · rw [List.dropLast_concat, crowded_iff led unique, not_not]
      exact entriesInUse_lt.mp room

end Tree

section Changes

/-- The files that are found have the contents that they had when a directory has changed. -/
theorem ChangedAt.contents_found (changed : ChangedAt disk after parent) (sound : Sound disk)
    (isDirectory : IsDirectory disk parent)
    (found : (naming disk).find directorySector other = some record)
    (plain : (naming disk).lists record = false) :
    (headerAt after record).contents after = (headerAt disk record).contents disk :=
  changed.contents sound isDirectory (sound.tree.isFile_of_find found plain)

namespace FileSystem.Created

variable {newSector : Nat} {kind : FileType} {fresh : List Nat}
  (created : Created disk after parent last i newSector kind fresh) (sound : Sound disk)
  (able : Addable disk path parent last)

include created sound able

/-- One name of the parent directory has changed. -/
theorem changes : (naming disk).Changes (naming after) directorySector parent last := by
  have gains := created.gains sound (able.leads.isDirectory .root)
  exact gains.changed.changes sound.tree fun name => gains.lookup_other able.leads.cut

/-- A file that has been created is put into the tree, and nothing else changes there. -/
theorem fileTree (kinds : kind = .file ∨ kind = .dir) :
    fileTree after = (fileTree disk).put (components path) (newNode kind) := by
  have found := able.leads.isDirectory .root
  have gains := created.gains sound found
  obtain ⟨names, split, led⟩ := (sound.readable.leads_iff_walk .root).mp able.leads
  have absent := ((addable_iff sound.readable split).mp able).2.1
  have type := created.new.type
  -- A new directory names nothing, and a new file has nothing in it.
  have bare : (naming after).lists newSector = true →
      ∀ name, (naming after).lookup newSector name = none := by
    intro listing name
    have empty := (created.new.dir (type.symm.trans (naming_lists.mp listing))).2
    rw [Option.eq_none_iff_forall_ne_some]
    intro cell named
    obtain ⟨j, entry, -⟩ := entry_of_lookup named
    obtain ⟨⟨inside, inUse⟩, -⟩ := entry_eq_some.mp entry
    rw [empty j inside] at inUse
    cases inUse
  have node : (naming after).node (fun sector => (headerAt after sector).contents after)
      (newSector : Int) = newNode kind := by
    unfold Naming.node
    rcases kinds with rfl | rfl
    · -- A new file is empty.
      rw [if_neg (by rw [naming_lists, type]; decide)]
      have empty : (headerAt after newSector).contents after = [] := by
        unfold FileHeader.contents
        rw [(created.new.file rfl).1]
        rfl
      exact congrArg FileNode.file empty
    · -- A new directory is a directory.
      rw [if_pos (naming_lists.mpr type)]
      rfl
  unfold Nachos.fileTree
  -- The name is new in its directory, and everything else is as it was.
  rw [split, ← node]
  refine (created.changes sound able).tree_added sound.tree.single led ?_ absent
    (gains.lookup_self able.absent able.leads.cut) bare
  exact fun other cell there plain =>
    gains.changed.contents_found sound found there plain

/-- Whatever was found is found when a file has been created. -/
theorem find_kept (there : (naming disk).find directorySector other = some record) :
    (naming after).find directorySector other = some record := by
  obtain ⟨names, split, led⟩ := (sound.readable.leads_iff_walk .root).mp able.leads
  have absent := ((addable_iff sound.readable split).mp able).2.1
  exact (created.changes sound able).find_added sound.tree.single led absent there

end FileSystem.Created

namespace Removed

variable {removed : Int} (left : Removed disk after parent i removed) (sound : Sound disk)
  (leads : Leads disk directorySector path parent last)
  (named : (dirAt disk parent).findIndex last = some i)

include left sound leads named

/-- One name of the parent directory has changed, and stands for nothing any more. -/
theorem changes (unique : UniqueNames disk) :
    (naming disk).Changes (naming after) directorySector parent last ∧
      (naming after).lookup parent last = none := by
  have found := leads.isDirectory .root
  have loses := left.loses sound found
  obtain ⟨inside, inUse, entryName, -⟩ := Directory.findIndex_some named
  rw [leads.cut] at entryName
  refine ⟨loses.changed.changes sound.tree fun name other =>
    loses.lookup_other inside (entryName ▸ other), ?_⟩
  rw [← entryName]
  exact loses.lookup_self inside found unique inUse

/-- A file that has been removed is taken out of the tree, with all that is below it. -/
theorem fileTree (unique : UniqueNames disk) :
    fileTree after = (fileTree disk).prune (components path) := by
  have found := leads.isDirectory .root
  obtain ⟨names, split, led⟩ := (sound.readable.leads_iff_walk .root).mp leads
  obtain ⟨changes, gone⟩ := left.changes sound leads named unique
  unfold Nachos.fileTree
  rw [split]
  refine changes.tree_removed sound.tree.single led ?_ gone
  exact fun other cell there plain =>
    (left.loses sound found).changed.contents_found sound found there plain

/-- What is not below the path is found where it was. -/
theorem find_kept (unique : UniqueNames disk) (apart : ¬ components path <+: other) :
    (naming after).find directorySector other = (naming disk).find directorySector other := by
  obtain ⟨names, split, led⟩ := (sound.readable.leads_iff_walk .root).mp leads
  rw [split] at apart
  exact (left.changes sound leads named unique).1.find_other sound.tree.single led apart

end Removed

namespace OpenFile.Wrote

variable {hdr' : FileHeader} {source : List Byte} {start : Nat} {fresh : List Nat}

/-- After a write, a file has its bytes up to there, and then those that were written. -/
theorem contents_cut {hdr : FileHeader} (wrote : Wrote disk after hdr hdr' source start fresh)
    (started : (start : Int) ≤ hdr.limit) :
    hdr'.contents after = (hdr.contents disk).take start ++ source := by
  have limit : hdr'.limit.toNat = start + source.length := by
    have := wrote.limit
    omega
  have front : ((hdr.contents disk).take start).length = start := by
    rw [List.length_take, FileHeader.length_contents]
    omega
  apply List.ext_getElem
  · -- Both sides are as long.
    rw [FileHeader.length_contents, limit, List.length_append, front]
  · intro k inside _
    rw [FileHeader.length_contents, limit] at inside
    have here := FileHeader.getD_contents after hdr' (k := k) (by omega)
    rw [wrote.bytes k inside, List.getD_eq_getElem _ _ (by
      rw [FileHeader.length_contents]; omega)] at here
    rw [here, List.getElem_append]
    -- A byte is in front of the write, or one of those that were written.
    by_cases before : k < start
    · rw [if_neg (by omega), dif_pos (by omega), List.getElem_take,
        ← FileHeader.getD_contents disk hdr (by omega), List.getD_eq_getElem]
    · -- It is one of those that were written.
      rw [if_pos (by omega), dif_neg (by omega), List.getD_eq_getElem _ _ (by omega)]
      congr 1
      omega

variable (wrote : Wrote disk after (headerAt disk sector) hdr' source start fresh)
  (sound : Sound disk) (isFile : IsFile disk sector)

include wrote sound isFile

/-- The directories name what they named. -/
theorem keeps : (naming disk).Keeps (naming after) directorySector := by
  refine ⟨@fun _ directory led name => ?_, @fun _ directory cell name led named => ?_⟩
  · exact lookup_congr (wrote.dirAt_other sound isFile (isDirectory_of_walk .root led)) name
  · obtain ⟨i, entry, -⟩ := entry_of_lookup named
    have isHeader : IsHeader disk cell := .entry (isDirectory_of_walk .root led) entry
    rw [Bool.eq_iff_iff, naming_lists, naming_lists, wrote.type_same sound isFile isHeader]

/-- A file that has been written has other contents in the tree, and nothing else changes there. -/
theorem fileTree (started : (start : Int) ≤ (headerAt disk sector).limit)
    (found : (naming disk).find directorySector names = some sector) :
    fileTree after = (fileTree disk).put names
      (.file (((headerAt disk sector).contents disk).take start ++ source)) := by
  -- The file is no directory.
  have plain : (naming disk).lists sector = false := by
    rw [Bool.eq_false_iff, Ne, naming_lists]
    exact isFile.notDir
  have written := wrote.contents_cut started
  rw [← wrote.header_self sound isFile.isHeader] at written
  rw [← written]
  unfold Nachos.fileTree
  -- No other file has changed.
  refine (wrote.keeps sound isFile).tree_written sound.tree.single found plain ?_
  intro other cell there listing different
  have also := sound.tree.isFile_of_find there listing
  exact wrote.contents_other sound isFile.isHeader also.isHeader different also.ne_map

/-- Writing to a file that no directory names leaves the tree as it is. -/
theorem fileTree_unnamed (unnamed : ∀ names,
      (naming disk).find directorySector names ≠ some sector) :
    Nachos.fileTree after = Nachos.fileTree disk := by
  unfold Nachos.fileTree
  refine (wrote.keeps sound isFile).tree_same fun other cell there listing => ?_
  have also := sound.tree.isFile_of_find there listing
  refine wrote.contents_other sound isFile.isHeader also.isHeader ?_ also.ne_map
  rintro rfl
  exact unnamed other there

/-- The directories still are all in order. -/
theorem uniqueNames (unique : UniqueNames disk) : UniqueNames after := by
  intro s isDirectory
  have found := (wrote.isDirectory_iff sound isFile s).mp isDirectory
  rw [wrote.dirAt_other sound isFile found]
  exact unique s found

end OpenFile.Wrote

end Changes

end Nachos
