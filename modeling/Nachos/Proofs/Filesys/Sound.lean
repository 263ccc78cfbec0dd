import Nachos.Filesys.FileSystem
import Nachos.Theory.Ownership
import Nachos.Proofs.Filesys.Directory

/-! Sound disks: what the headers and directories on them own, and what is marked in the map. -/

namespace Nachos

/-- What the headers and the directories on a disk say. -/
def holdings (disk : Disk) : Holdings Int where
  lists sector := (headerAt disk sector).type = .dir
  entry sector i :=
    if i < numDirEntries ∧ (dirAt disk sector).inUse i = true then
      some ((dirAt disk sector).entrySector i)
    else none
  part sector j :=
    if (headerAt disk sector).slot disk j = 0 then none
    else some ((headerAt disk sector).slot disk j)

/-- The sectors of the three system headers. -/
inductive SystemSector : Int → Prop
  | freeMap : SystemSector freeMapSector
  | directory : SystemSector directorySector
  | pipe : SystemSector pipeSector

/-- Is there the header of a directory, found from the root? -/
abbrev IsDirectory (disk : Disk) : Int → Prop := (holdings disk).Directory directorySector

/-- Is there a header, of the system or of a file that a directory names? -/
abbrev IsHeader (disk : Disk) : Int → Prop := (holdings disk).Record SystemSector directorySector

/-- What owns a sector. -/
abbrev Owns (disk : Disk) : Owner Int → Int → Prop :=
  (holdings disk).Owns SystemSector directorySector

/-- A directory on the disk, as it is made and kept. -/
structure DirectoryFile (disk : Disk) (sector : Int) : Prop where
  type : (headerAt disk sector).type = .dir
  limit : (headerAt disk sector).limit = directoryLimit
  nsectors : (headerAt disk sector).nsectors = 2
  self : (dirAt disk sector).sector = sector

/-- A directory stays in order while its header, and where it says it is, stay as they are. -/
theorem DirectoryFile.congr {disk after : Disk} {sector : Int}
    (inOrder : DirectoryFile disk sector)
    (header : headerAt after sector = headerAt disk sector)
    (self : (dirAt after sector).sector = (dirAt disk sector).sector) :
    DirectoryFile after sector where
  type := header ▸ inOrder.type
  limit := header ▸ inOrder.limit
  nsectors := header ▸ inOrder.nsectors
  self := self.trans inOrder.self

/-- Every directory that is found can be read, and says where it is. -/
structure Readable (disk : Disk) : Prop where
  onDisk : ∀ sector, IsHeader disk sector → OnDisk sector
  limit : ∀ sector, IsDirectory disk sector → (directoryLimit : Int) ≤ (headerAt disk sector).limit
  blocks : ∀ sector, IsDirectory disk sector → ∀ n < 2,
    0 < (headerAt disk sector).dataSector n ∧ OnDisk ((headerAt disk sector).dataSector n)
  self : ∀ sector, IsDirectory disk sector → (dirAt disk sector).sector = sector

/-- The directories and headers of a disk are in order, whatever is marked in the map. -/
structure Tree (disk : Disk) : Prop where
  unshared : (holdings disk).Unshared SystemSector directorySector
  onDisk : ∀ owner sector, Owns disk owner sector → OnDisk sector
  laid : ∀ sector, IsHeader disk sector →
    (headerAt disk sector).Laid disk ∧ (headerAt disk sector).selfSector = sector
  directory : ∀ sector, IsDirectory disk sector → DirectoryFile disk sector

/-- No sector has two owners, what is owned is marked, and all files are in order. -/
structure Sound (disk : Disk) : Prop where
  unshared : (holdings disk).Unshared SystemSector directorySector
  marked : ∀ owner sector, Owns disk owner sector → OnDisk sector ∧ Marked disk sector
  laid : ∀ sector, IsHeader disk sector →
    (headerAt disk sector).Laid disk ∧ (headerAt disk sector).selfSector = sector
  map : MapFile disk (mapHeader disk)
  directory : ∀ sector, IsDirectory disk sector → DirectoryFile disk sector

/-- Every sector that is marked has an owner. -/
def Exact (disk : Disk) : Prop :=
  ∀ sector, OnDisk sector → Marked disk sector → ∃ owner, Owns disk owner sector

/-- The handles that the file system keeps are as the disk has the files. -/
structure FileSystem.Mounted (disk : Disk) (fs : FileSystem) : Prop where
  freeMap : fs.freeMapFile.hdr = mapHeader disk
  directory : fs.directoryFile.hdr = headerAt disk directorySector

section Holdings

variable {disk after : Disk} {sector : Int} {i j : Nat}

/-- A part of a header is a slot in use. -/
theorem part_eq_some {s : Int} : (holdings disk).part sector j = some s ↔
    (headerAt disk sector).slot disk j = s ∧ s ≠ 0 := by
  unfold holdings
  dsimp only
  split
  · rename_i empty
    rw [empty]
    exact ⟨(nomatch ·), fun ⟨same, there⟩ => absurd same.symm there⟩
  · rename_i there
    rw [Option.some.injEq]
    exact ⟨fun same => ⟨same, same ▸ there⟩, And.left⟩

/-- An entry of a directory is one in use. -/
theorem entry_eq_some {s : Int} : (holdings disk).entry sector i = some s ↔
    (i < numDirEntries ∧ (dirAt disk sector).inUse i = true) ∧
      (dirAt disk sector).entrySector i = s := by
  unfold holdings
  dsimp only
  split
  · rename_i there
    rw [Option.some.injEq]
    exact ⟨fun same => ⟨there, same⟩, And.right⟩
  · rename_i empty
    exact ⟨(nomatch ·), fun both => absurd both.1 empty⟩

/-- The header that a directory's entry names. -/
theorem isHeader_of_entry (parent : IsDirectory disk sector) (inside : i < numDirEntries)
    (inUse : (dirAt disk sector).inUse i = true) :
    IsHeader disk ((dirAt disk sector).entrySector i) :=
  .entry parent (entry_eq_some.mpr ⟨⟨inside, inUse⟩, rfl⟩)

/-- A slot of a header is owned by it. -/
theorem owns_slot (found : IsHeader disk sector) (used : (headerAt disk sector).slot disk j ≠ 0) :
    Owns disk (.part sector j) ((headerAt disk sector).slot disk j) :=
  .part found (part_eq_some.mpr ⟨rfl, used⟩)

/-- A header keeps its kind and its sectors as long as it and its index sector are kept. -/
theorem part_same (self : after sector = disk sector)
    (index : (headerAt disk sector).dataSector numDirect ≠ 0 →
      after ((headerAt disk sector).dataSector numDirect) =
        disk ((headerAt disk sector).dataSector numDirect)) :
    headerAt after sector = headerAt disk sector ∧
      (∀ j, (headerAt after sector).slot after j = (headerAt disk sector).slot disk j) ∧
      (holdings after).part sector = (holdings disk).part sector := by
  have header : headerAt after sector = headerAt disk sector := congrArg FileHeader.ofSector self
  have slots : ∀ j, (headerAt after sector).slot after j = (headerAt disk sector).slot disk j := by
    intro j
    rw [header]
    exact FileHeader.slot_congr rfl index j
  refine ⟨header, slots, ?_⟩
  funext j
  unfold holdings
  dsimp only
  rw [slots]

end Holdings

/-- A file whose header and whose sectors are all as they were. -/
structure Untouched (disk after : Disk) (sector : Int) : Prop where
  self : after sector = disk sector
  parts : ∀ j, (headerAt disk sector).slot disk j ≠ 0 →
    after ((headerAt disk sector).slot disk j) = disk ((headerAt disk sector).slot disk j)

namespace Untouched

variable {disk after : Disk} {sector : Int} (untouched : Untouched disk after sector)
include untouched

/-- The index sector, if there is one, is in the last slot. -/
theorem index : (headerAt disk sector).dataSector numDirect ≠ 0 →
    after ((headerAt disk sector).dataSector numDirect) =
      disk ((headerAt disk sector).dataSector numDirect) := by
  rw [← FileHeader.slot_index disk]
  exact untouched.parts numDirect

/-- The header says what it said, and its slots have the same sectors. -/
theorem header : headerAt after sector = headerAt disk sector ∧
    ∀ j, (headerAt after sector).slot after j = (headerAt disk sector).slot disk j :=
  let ⟨same, slots, _⟩ := part_same untouched.self untouched.index
  ⟨same, slots⟩

/-- The file is laid out as it was. -/
theorem laid (laid : (headerAt disk sector).Laid disk) : (headerAt after sector).Laid after := by
  rw [untouched.header.1]
  exact laid.congr rfl rfl rfl rfl laid.limit untouched.index

/-- A directory has the entries that it had. -/
theorem table (laid : (headerAt disk sector).Laid disk) (inOrder : DirectoryFile disk sector) :
    dirAt after sector = dirAt disk sector := by
  refine dirAt_congr untouched.self fun n inside => untouched.parts n ((laid.used n).mpr ?_)
  rw [inOrder.nsectors]
  exact inside

/-- A directory without entries stays one. -/
theorem emptyDirectory (laid : (headerAt disk sector).Laid disk)
    (empty : DirectoryFile disk sector ∧ ∀ i < numDirEntries, (dirAt disk sector).inUse i = false) :
    DirectoryFile after sector ∧ ∀ i < numDirEntries, (dirAt after sector).inUse i = false := by
  obtain ⟨inOrder, clear⟩ := empty
  have table := untouched.table laid inOrder
  refine ⟨inOrder.congr untouched.header.1 (congrArg Directory.sector table), ?_⟩
  rw [table]
  exact clear

end Untouched

/-- The header of the root is a header. -/
theorem isHeader_root (disk : Disk) : IsHeader disk directorySector := .fixed .directory

/-- A directory's header is a header. -/
theorem isHeader_of_directory {disk : Disk} {sector : Int} (found : IsDirectory disk sector) :
    IsHeader disk sector := found.record .directory

namespace Tree

variable {disk : Disk} {sector record other : Int} {i j : Nat}

/-- A header is on the disk. -/
theorem header_onDisk (tree : Tree disk) (found : IsHeader disk sector) : OnDisk sector := by
  obtain ⟨owner, owns, -⟩ := found.owned
  exact tree.onDisk owner sector owns

/-- No header is in a slot of a header. -/
theorem header_ne_slot (tree : Tree disk) (found : IsHeader disk sector)
    (also : IsHeader disk record) (used : (headerAt disk record).slot disk j ≠ 0) :
    (headerAt disk record).slot disk j ≠ sector := by
  -- It would have two owners: the place where it is a header, and that slot.
  intro same
  obtain ⟨owner, owns, notPart⟩ := found.owned
  exact notPart record j (tree.unshared _ _ _ owns (same ▸ owns_slot also used))

/-- No sector is in two slots. -/
theorem slot_inj (tree : Tree disk) (found : IsHeader disk record) (also : IsHeader disk other)
    (used : (headerAt disk record).slot disk i ≠ 0)
    (same : (headerAt disk record).slot disk i = (headerAt disk other).slot disk j) :
    record = other ∧ i = j := by
  have owners := tree.unshared _ _ _ (owns_slot found used)
    (same ▸ owns_slot also (j := j) (same ▸ used))
  cases owners
  exact ⟨rfl, rfl⟩

/-- The two sectors of a directory. -/
theorem directory_block (tree : Tree disk) (found : IsDirectory disk sector) {n : Nat}
    (inside : n < 2) : (headerAt disk sector).block disk n = (headerAt disk sector).slot disk n ∧
      (headerAt disk sector).slot disk n ≠ 0 := by
  have laid := (tree.laid sector (isHeader_of_directory found)).1
  have count := (tree.directory sector found).nsectors
  -- A directory is small enough for its first two slots.
  have slot : (headerAt disk sector).block disk n = (headerAt disk sector).slot disk n := by
    have direct : n < 24 := by omega
    unfold FileHeader.block FileHeader.blockSlot
    rw [if_pos direct]
  have positive := (laid.block_inRange (n := n) (by omega)).2.2
  exact ⟨slot, by rw [← slot]; omega⟩

/-- The map of free sectors is not a directory. -/
theorem directory_ne_map (tree : Tree disk) (found : IsDirectory disk sector) :
    sector ≠ freeMapSector := by
  rintro rfl
  -- It is in a fixed place, and not that of the root.
  cases found with
  | entry parent named listing => cases tree.unshared _ _ _ (.fixed .freeMap) (.entry parent named)

/-- No directory lists itself. -/
theorem ne_listed (tree : Tree disk) (found : IsDirectory disk sector) :
    ∀ {i : Nat} {s : Int}, (holdings disk).entry sector i = some s → s ≠ sector := by
  induction found with
  | root =>
    rintro i s named rfl
    cases tree.unshared _ _ _ (.fixed .directory) (.entry .root named)
  | entry parent named listing ih =>
    -- Its only owner is the entry that it is found by, which would be in itself.
    rintro i s also rfl
    cases tree.unshared _ _ _ (.entry parent named) (.entry (.entry parent named listing) also)
    exact ih named rfl

/-- The directories of the tree can be read. -/
theorem readable (tree : Tree disk) : Readable disk := by
  refine ⟨fun s => tree.header_onDisk, fun s found => le_of_eq (tree.directory s found).limit.symm,
    fun s found n inside => ?_, fun s found => (tree.directory s found).self⟩
  have direct : n ≤ numDirect := show n ≤ 24 by omega
  have there := (tree.directory_block found inside).2
  have laid := (tree.laid s (isHeader_of_directory found)).1
  rw [FileHeader.slot_direct disk _ direct] at there
  obtain ⟨onDisk, -⟩ := laid.inRange n (by rwa [FileHeader.slot_direct disk _ direct])
  rw [FileHeader.slot_direct disk _ direct] at onDisk
  have nonneg := onDisk.1
  exact ⟨by omega, onDisk⟩

end Tree

/-- Both sectors of a directory are found. -/
theorem Readable.found {disk : Disk} {sector : Int} (readable : Readable disk)
    (found : IsDirectory disk sector) : (headerAt disk sector).Found disk 2 :=
  FileHeader.found_direct (by decide) (readable.blocks sector found)

namespace Sound

variable {disk : Disk} {sector record other : Int} {i j : Nat}

/-- The directories and headers of a sound disk are in order. -/
theorem tree (sound : Sound disk) : Tree disk :=
  ⟨sound.unshared, fun owner sector owns => (sound.marked owner sector owns).1, sound.laid,
    sound.directory⟩

/-- The directories of a sound disk can be read. -/
theorem readable (sound : Sound disk) : Readable disk := sound.tree.readable

/-- What is not marked has no owner. -/
theorem unowned (sound : Sound disk) (clear : ¬ Marked disk sector) (owner : Owner Int) :
    ¬ Owns disk owner sector := fun owns => clear (sound.marked owner sector owns).2

/-- A header is marked and on the disk. -/
theorem header_marked (sound : Sound disk) (found : IsHeader disk sector) :
    OnDisk sector ∧ Marked disk sector := by
  obtain ⟨owner, owns, -⟩ := found.owned
  exact sound.marked owner sector owns

/-- A slot in use is marked and on the disk. -/
theorem slot_marked (sound : Sound disk) (found : IsHeader disk sector)
    (used : (headerAt disk sector).slot disk j ≠ 0) :
    OnDisk ((headerAt disk sector).slot disk j) ∧ Marked disk ((headerAt disk sector).slot disk j) :=
  sound.marked _ _ (owns_slot found used)

/-- The map of free sectors is one of all sectors, with sector 0 taken. -/
theorem ofDisk (sound : Sound disk) : (freeMapOn disk).OfDisk :=
  ⟨rfl, (sound.marked _ _ (.fixed .freeMap)).2⟩

/-- The sector of the map is a slot of its header. -/
theorem slot_map (sound : Sound disk) :
    (headerAt disk freeMapSector).slot disk 0 = (mapHeader disk).dataSector 0 ∧
      (headerAt disk freeMapSector).slot disk 0 ≠ 0 := by
  have slot : (headerAt disk freeMapSector).slot disk 0 = (mapHeader disk).dataSector 0 :=
    if_pos (Nat.zero_le _)
  have positive := sound.map.dataSector.2
  exact ⟨slot, by rw [slot]; omega⟩

/-- Every header but that of the map is ready to be written through. -/
theorem ready (sound : Sound disk) (found : IsHeader disk sector) (other : sector ≠ freeMapSector) :
    Ready disk (headerAt disk sector) := by
  obtain ⟨laid, self⟩ := sound.laid sector found
  obtain ⟨slot, used⟩ := sound.slot_map
  have map : IsHeader disk freeMapSector := .fixed .freeMap
  -- The sector of the map belongs to another header, and has no second owner.
  refine ⟨laid, sound.map, sound.ofDisk, ?_, ?_, fun j there => (sound.slot_marked found there).2,
    ?_, fun j same => ?_⟩
  · rw [← slot]
    exact (sound.slot_marked map used).2
  · rw [self]
    exact (sound.header_marked found).2
  · rw [self, ← slot]
    exact ⟨other, (sound.tree.header_ne_slot found map used).symm⟩
  · rw [← slot] at same
    have there : (headerAt disk sector).slot disk j ≠ 0 := by
      rw [same]
      exact used
    exact other (sound.tree.slot_inj found map there same).1

end Sound

/-- A disk on which another map has been stored, and nothing else has changed. -/
structure MapStored (disk after : Disk) (map : PersistentBitmap) : Prop where
  map : freeMapOn after = map
  kept : ∀ s, s ≠ (mapHeader disk).dataSector 0 → after s = disk s

/-- Storing the map changes no header of the map. -/
theorem MapStored.mapHeader {disk after : Disk} {map : PersistentBitmap}
    (stored : MapStored disk after map) (mapFile : MapFile disk (mapHeader disk)) :
    mapHeader after = mapHeader disk := by
  have positive := mapFile.dataSector.2
  exact congrArg FileHeader.ofSector (stored.kept freeMapSector (Int.ne_of_lt positive))

/-- The map is stored through the handle that the file system keeps. -/
theorem PersistentBitmap.writeBack_yields {disk : Disk} {fs : FileSystem}
    (mapFile : MapFile disk (mapHeader disk)) (same : fs.freeMapFile.hdr = mapHeader disk)
    {map : PersistentBitmap} (all : map.numBits = numSectors) :
    Fs.Yields disk (PersistentBitmap.writeBack map fs.freeMapFile) fun given after =>
      given = fs.freeMapFile ∧ MapStored disk after map := by
  refine Program.Yields.bind
    (MapFile.writeBack_yields 1 fs.freeMapFile (same ▸ mapFile) all) ?_
  rintro _ after ⟨rfl, header, stored, kept⟩
  rw [same] at header stored kept
  -- The header of the map is written as it was.
  have first : after freeMapSector = disk freeMapSector := by
    rw [header]
    exact FileHeader.toSector_ofSector _
  have headers : mapHeader after = mapHeader disk := congrArg FileHeader.ofSector first
  refine Program.Yields.pure ⟨rfl, ?_, fun s other => ?_⟩
  · unfold freeMapOn
    rw [headers, stored]
  · by_cases here : s = freeMapSector
    · rw [here, first]
    · exact kept s here other

/-- The map is read through the handle that the file system keeps. -/
theorem PersistentBitmap.ofFile_reads {disk : Disk} {fs : FileSystem}
    (mapFile : MapFile disk (mapHeader disk)) (same : fs.freeMapFile.hdr = mapHeader disk) :
    Fs.Reads disk (PersistentBitmap.ofFile fs.freeMapFile numSectors) (freeMapOn disk) :=
  mapFile.fetchFrom_reads fs.freeMapFile same

end Nachos
