import Nachos.Proofs.Filesys.Create
import Nachos.Proofs.Filesys.Remove
import Nachos.Proofs.Filesys.Tree

/-! Sound disks stay sound: after a file has been created, written or removed. -/

namespace Nachos

variable {disk after : Disk} {parent sector record : Int}

namespace FileSystem.Created

variable {last : List Byte} {i newSector : Nat} {kind : FileType} {fresh : List Nat}
  {fs : FileSystem}

/-- The sectors of a new file were free. -/
theorem unmarked (created : Created disk after parent last i newSector kind fresh) {t : Nat}
    (member : t ∈ newSector :: fresh) : ¬ Marked disk t := fun marked =>
  OpenFile.fresh_unmarked created.takes member marked rfl

/-- What is marked afterwards was marked before, or belongs to the new file. -/
theorem marked_iff (created : Created disk after parent last i newSector kind fresh)
    (s : Int) : Marked after s ↔ s.toNat ∈ newSector :: fresh ∨ Marked disk s := by
  unfold Marked
  rw [created.takes.bit, Bool.or_eq_true, decide_eq_true_iff]

/-- A slot of the new header is one of the sectors that were found for it. -/
theorem slot_mem {j : Nat} (there : ((fresh.getD j 0 : Nat) : Int) ≠ 0) : fresh.getD j 0 ∈ fresh := by
  by_cases inside : j < fresh.length
  · rw [List.getD_eq_getElem?_getD, List.getElem?_eq_getElem inside, Option.getD_some]
    exact List.getElem_mem inside
  · rw [List.getD_eq_default _ _ (by omega)] at there
    exact absurd rfl there

/-- A new directory takes two sectors besides that of its header. -/
theorem length_dir (created : Created disk after parent last i newSector .dir fresh)
    (sound : Sound disk) : fresh.length = 2 := by
  obtain ⟨directory, -⟩ := created.new.dir rfl
  -- A slot is in use as long as the directory has sectors.
  have used := created.new.laid.used
  rw [directory.nsectors] at used
  simp only [created.new.slots] at used
  -- The sectors that were found are not sector zero.
  have positive : ∀ t ∈ fresh, 0 < t := fun t member =>
    have clear := created.takes.clear t (List.mem_cons_of_mem _ member)
    (sound.ofDisk.free clear.1 clear.2).1
  -- The slots in use are the first two, and those that the found sectors are in.
  have inside : ∀ j, j < fresh.length ↔ j < 2 := by
    intro j
    refine Iff.trans ⟨fun inside => ?_, fun there => ?_⟩ (used j)
    · -- A slot with such a sector is in use.
      rw [List.getD_eq_getElem?_getD, List.getElem?_eq_getElem inside, Option.getD_some]
      have := positive _ (List.getElem_mem inside)
      omega
    · -- One without is not.
      by_contra past
      rw [List.getD_eq_default _ _ (by omega)] at there
      exact there rfl
  have lower := inside 1
  have upper := inside 2
  omega

section Sound

variable (created : Created disk after parent last i newSector kind fresh) (sound : Sound disk)
  (found : IsDirectory disk parent)

include created sound found

/-- Creating a file changes nothing that is owned but the map and a directory. -/
theorem changedAt : ChangedAt disk after parent := by
  intro owner s owns notMap notDir
  have marked := (sound.marked owner s owns).2
  refine created.frame s (fun same => ?_) (fun n inside same => ?_) ?_ fun t member => ?_
  · obtain ⟨slot, used⟩ := sound.slot_map
    have mine := owns_slot (.fixed .freeMap) used
    rw [slot] at mine
    exact notMap (sound.unshared _ _ _ owns (same ▸ mine))
  · have there := (sound.tree.directory_block found inside).2
    have mine := owns_slot (isHeader_of_directory found) there
    exact notDir n inside (sound.unshared _ _ _ owns (same ▸ mine))
  · exact (OpenFile.fresh_unmarked created.takes List.mem_cons_self marked).symm
  · exact (OpenFile.fresh_unmarked created.takes (List.mem_cons_of_mem _ member) marked).symm

/-- The tree has one more entry, which names a header that is new. -/
theorem gains : Gains disk after parent last i newSector := by
  refine ⟨created.changedAt sound found, created.entered, ?_, created.new.laid, created.new.self,
    sound.unowned (created.unmarked List.mem_cons_self), fun j there => ?_, fun isDir => ?_⟩
  · rw [← created.new.self]
    exact created.new.laid.self
  · rw [created.new.slots] at there ⊢
    exact sound.unowned (created.unmarked (List.mem_cons_of_mem _ (slot_mem there)))
  · exact created.new.dir (created.new.type.symm.trans isDir)

/-- What owns a sector afterwards owned it before, or is the new entry or the new header. -/
theorem owns_iff (owner : Owner Int) (s : Int) :
    Owns after owner s ↔ Owns disk owner s ∨ (owner = .entry parent i ∧ s = newSector) ∨
      ∃ j, owner = .part newSector j ∧ (fresh.getD j 0 : Nat) = s ∧ s ≠ 0 := by
  have all := (created.gains sound found).owns_iff sound.tree found owner s
  simp only [created.new.slots] at all
  exact all

/-- The disk is sound after a file has been created. -/
theorem stillSound : Sound after := by
  -- The names and headers form a tree again.
  have tree := (created.gains sound found).stillTree sound.tree found
  have free : ∀ t ∈ newSector :: fresh, 0 < t ∧ t < numSectors := fun t member =>
    sound.ofDisk.free (created.takes.clear t member).1 (created.takes.clear t member).2
  -- The sectors that were taken are on the disk, and are marked now.
  have taken : ∀ t ∈ newSector :: fresh, OnDisk t ∧ Marked after t := by
    intro t member
    have inRange := free t member
    exact ⟨⟨by omega, by exact_mod_cast inRange.2⟩, (created.marked_iff t).mpr (.inl member)⟩
  refine ⟨tree.unshared, fun owner s owns => ?_, tree.laid, ?_, tree.directory⟩
  -- What is owned now was owned before, or is one of the sectors just marked.
  · rcases (created.owns_iff sound found owner s).mp owns with old | ⟨-, rfl⟩ | ⟨j, -, rfl, there⟩
    · -- What was owned before is marked still.
      obtain ⟨onDisk, marked⟩ := sound.marked owner s old
      exact ⟨onDisk, (created.marked_iff s).mpr (.inr marked)⟩
    · -- The new header is one of those taken.
      exact taken newSector List.mem_cons_self
    · -- So is each of its parts.
      exact taken _ (List.mem_cons_of_mem _ (slot_mem there))
  · -- The file of the map is the same.
    rw [created.keepsMap]
    exact sound.map.congr

/-- What is marked is owned after a file has been created. -/
theorem stillExact (exactly : Exact disk) : Exact after := by
  intro s onDisk marked
  have number : ((s.toNat : Nat) : Int) = s := Int.toNat_of_nonneg onDisk.1
  rcases (created.marked_iff s).mp marked with member | old
  · rcases List.mem_cons.mp member with same | member
    · exact ⟨_, (created.owns_iff sound found _ s).mpr (.inr (.inl ⟨rfl, by omega⟩))⟩
    · obtain ⟨j, inside, same⟩ := List.getElem_of_mem member
      have positive := (sound.ofDisk.free (created.takes.clear _ (List.mem_cons_of_mem _ member)).1
        (created.takes.clear _ (List.mem_cons_of_mem _ member)).2).1
      refine ⟨_, (created.owns_iff sound found _ s).mpr (.inr (.inr ⟨j, rfl, ?_, by omega⟩))⟩
      rw [List.getD_eq_getElem?_getD, List.getElem?_eq_getElem inside, Option.getD_some, same, number]
  · obtain ⟨owner, owns⟩ := exactly s onDisk old
    exact ⟨owner, (created.owns_iff sound found owner s).mpr (.inl owns)⟩

/-- The file system stays mounted when a file is created. -/
theorem stillMounted (mounted : fs.Mounted disk) : fs.Mounted after := by
  refine ⟨mounted.freeMap.trans created.keepsMap.symm, mounted.directory.trans ?_⟩
  exact congrArg FileHeader.ofSector
    ((created.changedAt sound found).header (isHeader_root disk)).symm

end Sound

end FileSystem.Created

/-- A file that is neither the map of free sectors nor a directory. -/
structure IsFile (disk : Disk) (sector : Int) : Prop where
  isHeader : IsHeader disk sector
  ne_map : sector ≠ freeMapSector
  notDir : (headerAt disk sector).type ≠ .dir

namespace IsFile

/-- An ordinary file that a directory names is one. -/
theorem ofEntry (sound : Sound disk) (named : ∃ directory i, IsDirectory disk directory ∧
    (holdings disk).entry directory i = some sector) (type : (headerAt disk sector).type = .file) :
    IsFile disk sector := by
  obtain ⟨directory, i, found, entry⟩ := named
  refine ⟨.entry found entry, ?_, by rw [type]; decide⟩
  rintro rfl
  cases sound.unshared _ _ _ (.fixed .freeMap) (.entry found entry)

/-- A directory is none. -/
theorem ne_directory (isFile : IsFile disk sector) (sound : Sound disk)
    (found : IsDirectory disk record) : record ≠ sector := by
  rintro rfl
  exact isFile.notDir (sound.directory _ found).type

/-- The file can be written through its header. -/
theorem ready (isFile : IsFile disk sector) (sound : Sound disk) :
    Ready disk (headerAt disk sector) := sound.ready isFile.isHeader isFile.ne_map

end IsFile

namespace OpenFile.Wrote

variable {hdr' : FileHeader} {source : List Byte} {position : Nat} {fresh : List Nat}
  {fs : FileSystem}

section Any

variable (wrote : Wrote disk after (headerAt disk sector) hdr' source position fresh)
  (sound : Sound disk) (header : IsHeader disk sector)

include wrote sound header

/-- A sector that is marked, and is neither the file's nor the map's, is as it was. -/
theorem kept {s : Int} (marked : Marked disk s) (notMap : s ≠ (mapHeader disk).dataSector 0)
    (notSelf : s ≠ sector)
    (notSlot : ∀ j, (headerAt disk sector).slot disk j ≠ 0 →
      (headerAt disk sector).slot disk j ≠ s) : after s = disk s := by
  obtain ⟨laid, self⟩ := sound.laid sector header
  by_cases zero : s = freeMapSector
  · -- The header of the map is the same one, so its sector is the same.
    have header := wrote.keepsMap
    rw [zero, ← FileHeader.toSector_ofSector (after freeMapSector),
      ← FileHeader.toSector_ofSector (disk freeMapSector)]
    exact congrArg FileHeader.toSector header
  · -- Any other sector was not written, unless it is in a slot.
    refine wrote.frame s zero notMap (by rwa [self]) fun j => ?_
    rcases wrote.grew.slot_cases laid.mapped j with ⟨there, same⟩ | ⟨-, t, member, same, -⟩ | ⟨-, same⟩
    · -- A slot that was in use is another one.
      rw [same]
      exact notSlot j there
    · -- A slot that was filled has a sector that was free.
      rw [same]
      exact fresh_unmarked wrote.takes member marked
    · -- A slot that is empty is no sector.
      rw [same]
      exact Ne.symm zero

/-- Another header is as it was. -/
theorem header_other (isHeader : IsHeader disk record) (other : record ≠ sector) :
    after record = disk record := by
  obtain ⟨slot, used⟩ := sound.slot_map
  refine wrote.kept sound header (sound.header_marked isHeader).2 ?_ other fun j there =>
    sound.tree.header_ne_slot isHeader header there
  rw [← slot]
  exact (sound.tree.header_ne_slot isHeader (.fixed .freeMap) used).symm

/-- A slot of another header is as it was, apart from the map. -/
theorem slot_other (isHeader : IsHeader disk record) (other : record ≠ sector) {j : Nat}
    (used : (headerAt disk record).slot disk j ≠ 0) (notMap : ¬ (record = freeMapSector ∧ j = 0)) :
    after ((headerAt disk record).slot disk j) = disk ((headerAt disk record).slot disk j) := by
  refine wrote.kept sound header (sound.slot_marked isHeader used).2 (fun same => ?_) ?_
    fun k there same => ?_
  · rw [← sound.slot_map.1] at same
    exact notMap (sound.tree.slot_inj isHeader (.fixed .freeMap) used same)
  · exact sound.tree.header_ne_slot header isHeader used
  · exact other (sound.tree.slot_inj isHeader header used same.symm).1

/-- Another header has the sectors that it had, in the same slots. -/
theorem index_other (isHeader : IsHeader disk record) (other : record ≠ sector) :
    (headerAt disk record).dataSector numDirect ≠ 0 →
      after ((headerAt disk record).dataSector numDirect) =
        disk ((headerAt disk record).dataSector numDirect) := by
  rw [← FileHeader.slot_index disk]
  exact fun used => wrote.slot_other sound header isHeader other used (nomatch ·.2)

/-- The contents of another file are as they were, apart from the map. -/
theorem contents_other (isHeader : IsHeader disk record) (other : record ≠ sector)
    (notMap : record ≠ freeMapSector) :
    (headerAt after record).contents after = (headerAt disk record).contents disk := by
  have same : headerAt after record = headerAt disk record :=
    congrArg FileHeader.ofSector (wrote.header_other sound header isHeader other)
  -- The header of the other file is the same, and so are its slots.
  obtain ⟨laid, -⟩ := sound.laid record isHeader
  have slots := FileHeader.slot_congr rfl (wrote.index_other sound header isHeader other)
  rw [same]
  unfold FileHeader.contents FileHeader.bytesAt
  refine List.map_congr_left fun k member => ?_
  rw [List.mem_range] at member
  -- Each byte is in a sector that the other file has a slot for.
  have counted := laid.sector_counted (k := 0 + k) (by have := laid.limit; omega)
  have used := (laid.block_inRange counted).2.2.ne'
  refine FileHeader.byteAt_congr (slots _) ?_
  -- These sectors have not been written.
  exact wrote.slot_other sound header isHeader other used fun both => notMap both.1

/-- The header of the file is the one that was written. -/
theorem header_self : headerAt after sector = hdr' := by
  have stored := wrote.stored
  rwa [(sound.laid sector header).2] at stored

/-- Another directory is as it was. -/
theorem dirAt_ne (found : IsDirectory disk record) (other : record ≠ sector) :
    dirAt after record = dirAt disk record := by
  have isHeader := isHeader_of_directory found
  refine dirAt_congr (wrote.header_other sound header isHeader other) fun n inside => ?_
  exact wrote.slot_other sound header isHeader other (sound.tree.directory_block found inside).2
    fun both => sound.tree.directory_ne_map found both.1

end Any

section Other

variable (wrote : Wrote disk after (headerAt disk sector) hdr' source position fresh)
  (sound : Sound disk) (isFile : IsFile disk sector)

include wrote sound isFile

/-- Every directory is as it was. -/
theorem dirAt_other (found : IsDirectory disk record) : dirAt after record = dirAt disk record :=
  wrote.dirAt_ne sound isFile.isHeader found (isFile.ne_directory sound found)

/-- Every header is of the kind that it was. -/
theorem type_same (isHeader : IsHeader disk record) :
    (headerAt after record).type = (headerAt disk record).type := by
  by_cases same : record = sector
  · rw [same, wrote.header_self sound isFile.isHeader]
    exact wrote.grew.type
  · rw [(part_same (wrote.header_other sound isFile.isHeader isHeader same)
      (wrote.index_other sound isFile.isHeader isHeader same)).1]

/-- The same headers are those of directories. -/
theorem lists_iff (isHeader : IsHeader disk record) :
    (holdings after).lists record ↔ (holdings disk).lists record := by
  unfold holdings
  dsimp only
  rw [wrote.type_same sound isFile isHeader]

/-- The directories have the same entries. -/
theorem entry_eq (found : IsDirectory disk record) :
    (holdings after).entry record = (holdings disk).entry record := by
  unfold holdings
  dsimp only
  rw [wrote.dirAt_other sound isFile found]

/-- The same headers are found. -/
theorem isHeader_iff (record : Int) : IsHeader after record ↔ IsHeader disk record :=
  Holdings.record_iff_of_same (fun _ => wrote.lists_iff sound isFile)
    (fun _ => wrote.entry_eq sound isFile) record

/-- The same directories are found. -/
theorem isDirectory_iff (record : Int) : IsDirectory after record ↔ IsDirectory disk record :=
  Holdings.directory_iff_of_same (fun _ => wrote.lists_iff sound isFile)
    (fun _ => wrote.entry_eq sound isFile) record

/-- What owns a sector afterwards owned it before, or is a slot that the write has filled. -/
theorem owns_iff (owner : Owner Int) (s : Int) : Owns after owner s ↔ Owns disk owner s ∨
    ∃ j, ∃ t ∈ fresh, owner = .part sector j ∧ hdr'.slot after j = t ∧ s = t := by
  have laid := (sound.laid sector isFile.isHeader).1
  have self := wrote.header_self sound isFile.isHeader
  -- The other owners are those from before.
  have all := Holdings.owns_iff_of_same (fun _ => wrote.lists_iff sound isFile)
    (fun _ => wrote.entry_eq sound isFile) owner s
  -- A slot of the file is one that it had, or one that has been filled.
  have parts : ∀ record j, IsHeader disk record → ((holdings after).part record j = some s ↔
      (holdings disk).part record j = some s ∨
        ∃ t ∈ fresh, record = sector ∧ hdr'.slot after j = t ∧ s = t) := by
    intro record j isHeader
    by_cases same : record = sector
    · subst same
      rw [part_eq_some, part_eq_some, self]
      rcases wrote.grew.slot_cases laid.mapped j with ⟨there, slot⟩ | ⟨empty, t, member, slot, -⟩ |
        ⟨empty, slot⟩
      · -- The slot was in use, and is so still.
        rw [slot]
        refine ⟨.inl, fun either => either.resolve_right ?_⟩
        rintro ⟨t, member, -, equal, rfl⟩
        have marked := (sound.slot_marked isHeader there).2
        exact fresh_unmarked wrote.takes member marked equal.symm
      · -- The slot was empty, and has been filled.
        have positive := (sound.ofDisk.free (wrote.takes.clear t member).1
          (wrote.takes.clear t member).2).1
        rw [slot, empty]
        constructor
        · rintro ⟨rfl, there⟩
          exact .inr ⟨t, member, rfl, rfl, rfl⟩
        · rintro (⟨rfl, there⟩ | ⟨_, -, -, equal, rfl⟩)
          · exact absurd rfl there
          · exact ⟨equal, by omega⟩
      · -- It is empty still.
        rw [slot, empty]
        refine ⟨.inl, fun either => either.resolve_right ?_⟩
        rintro ⟨t, member, -, equal, rfl⟩
        have positive := (sound.ofDisk.free (wrote.takes.clear t member).1
          (wrote.takes.clear t member).2).1
        omega
    · -- The slots of another file have not changed.
      rw [(part_same (wrote.header_other sound isFile.isHeader isHeader same)
        (wrote.index_other sound isFile.isHeader isHeader same)).2.2]
      exact ⟨.inl, fun either => either.resolve_right fun ⟨_, _, equal, _⟩ => same equal⟩
  refine all.trans ⟨?_, ?_⟩
  · -- What is owned is owned as before, or through a slot of a file.
    rintro (⟨old, -⟩ | ⟨record, j, rfl, isHeader, part⟩)
    · exact .inl old
    · rcases (parts record j isHeader).mp part with old | ⟨t, member, rfl, slot, rfl⟩
      · exact .inl (.part isHeader old)
      · exact .inr ⟨j, t, member, rfl, slot, rfl⟩
  · -- The other way: what was owned is owned still.
    rintro (old | ⟨j, t, member, rfl, slot, rfl⟩)
    · cases old with
      | fixed placed => exact .inl ⟨.fixed placed, fun _ _ => nofun⟩
      | entry parent named => exact .inl ⟨.entry parent named, fun _ _ => nofun⟩
      | part found used =>
        exact .inr ⟨_, _, rfl, found, (parts _ _ found).mpr (.inl used)⟩
    · -- A slot that was filled is owned by the file.
      exact .inr ⟨_, _, rfl, isFile.isHeader,
        (parts _ _ isFile.isHeader).mpr (.inr ⟨t, member, rfl, slot, rfl⟩)⟩

/-- The disk is sound after a file has been written. -/
theorem stillSound : Sound after := by
  obtain ⟨laid, ownSector⟩ := sound.laid sector isFile.isHeader
  have self := wrote.header_self sound isFile.isHeader
  -- The sectors that were found were free.
  have free : ∀ t ∈ fresh, 0 < t ∧ t < numSectors := fun t member =>
    sound.ofDisk.free (wrote.takes.clear t member).1 (wrote.takes.clear t member).2
  refine ⟨?_, fun owner s owns => ?_, fun record found => ?_, ?_, fun record found => ?_⟩
  -- A new sector was not marked, so nobody owned it, and it is in one slot only.
  · refine sound.unshared.extend (fun owner s => (wrote.owns_iff sound isFile owner s).mp) ?_ ?_
    · -- Nobody has owned it before.
      rintro owner s ⟨j, t, member, -, -, rfl⟩ other owns
      exact fresh_unmarked wrote.takes member (sound.marked other _ owns).2 rfl
    · -- It is in one slot only.
      rintro owner other s ⟨j, t, member, rfl, slot, rfl⟩ ⟨k, t', -, rfl, slot', same⟩
      have there : hdr'.slot after j ≠ 0 := by
        have := (free t member).1
        omega
      rw [wrote.laid.apart j k there (by rw [slot, slot', same])]
  · rcases (wrote.owns_iff sound isFile owner s).mp owns with old | ⟨j, t, member, -, -, rfl⟩
    · -- What was owned before is marked still.
      obtain ⟨onDisk, marked⟩ := sound.marked owner s old
      exact ⟨onDisk, wrote.marked marked⟩
    · -- What is new has just been marked.
      have inRange := free t member
      exact ⟨⟨by omega, by exact_mod_cast inRange.2⟩, wrote.marked_fresh member⟩
  · have isHeader := (wrote.isHeader_iff sound isFile record).mp found
    -- The file itself has grown, and other files keep their slots.
    by_cases same : record = sector
    · rw [same, self]
      exact ⟨wrote.laid, wrote.grew.selfSector.trans ownSector⟩
    · -- The index sector of another file is as it was.
      have index := wrote.index_other sound isFile.isHeader isHeader same
      obtain ⟨laid, selfSector⟩ := sound.laid record isHeader
      rw [(part_same (wrote.header_other sound isFile.isHeader isHeader same) index).1]
      exact ⟨laid.congr rfl rfl rfl rfl laid.limit index, selfSector⟩
  · -- The file of the map keeps its header.
    rw [wrote.keepsMap]
    exact sound.map.congr
  · -- A directory has the same header and table.
    have directory := (wrote.isDirectory_iff sound isFile record).mp found
    have isHeader := isHeader_of_directory directory
    have other := isFile.ne_directory sound directory
    have header : headerAt after record = headerAt disk record :=
      congrArg FileHeader.ofSector (wrote.header_other sound isFile.isHeader isHeader other)
    have table := wrote.dirAt_other sound isFile directory
    exact (sound.directory record directory).congr header (congrArg Directory.sector table)

/-- A sector that the write has found is in a slot of the file. -/
theorem owns_fresh {t : Nat} (member : t ∈ fresh) : ∃ j, Owns after (.part sector j) t := by
  obtain ⟨j, inside, same⟩ := List.getElem_of_mem member
  have slot := wrote.grew.slots (FileHeader.usedSlots (headerAt disk sector).nsectors.toNat + j)
  rw [if_neg (by omega), Nat.add_sub_cancel_left, List.getD_eq_getElem?_getD,
    List.getElem?_eq_getElem inside, Option.getD_some, same] at slot
  exact ⟨_, (wrote.owns_iff sound isFile _ t).mpr (.inr ⟨_, _, member, rfl, slot, rfl⟩)⟩

/-- What is marked is owned after a file has been written. -/
theorem stillExact (exactly : Exact disk) : Exact after := by
  intro s onDisk marked
  have number : ((s.toNat : Nat) : Int) = s := Int.toNat_of_nonneg onDisk.1
  unfold Marked at marked
  rw [wrote.takes.bit, Bool.or_eq_true, decide_eq_true_iff] at marked
  rcases marked with member | old
  · obtain ⟨j, owns⟩ := wrote.owns_fresh sound isFile member
    exact ⟨_, number ▸ owns⟩
  · obtain ⟨owner, owns⟩ := exactly s onDisk old
    exact ⟨owner, (wrote.owns_iff sound isFile owner s).mpr (.inl owns)⟩

/-- The file system stays mounted when a file is written. -/
theorem stillMounted (mounted : fs.Mounted disk) : fs.Mounted after := by
  refine ⟨mounted.freeMap.trans wrote.keepsMap.symm, mounted.directory.trans ?_⟩
  have root := isHeader_root disk
  exact congrArg FileHeader.ofSector
    (wrote.header_other sound isFile.isHeader root (isFile.ne_directory sound .root)).symm

end Other

end OpenFile.Wrote

namespace Removed

variable {i : Nat} {removed : Int} {fs : FileSystem} (left : Removed disk after parent i removed)
  (sound : Sound disk) (found : IsDirectory disk parent)

include left sound found

/-- The map keeps its header when a file is removed. -/
theorem keepsMap : mapHeader after = mapHeader disk := by
  obtain ⟨middle, changed, stored⟩ := left.stored
  have same : mapHeader middle = mapHeader disk :=
    congrArg FileHeader.ofSector (changed.header sound.tree found (.fixed .freeMap))
  have mapFile : MapFile middle (mapHeader middle) := same ▸ sound.map.congr
  exact (stored.mapHeader mapFile).trans same

/-- The directory has one entry fewer, and nothing else has changed but the map. -/
theorem loses : Loses disk after parent i := by
  obtain ⟨middle, changed, stored⟩ := left.stored
  have isHeader := isHeader_of_directory found
  -- The header of the directory has not been written.
  have header := changed.header sound.tree found isHeader
  -- Nor has that of the map.
  have same : mapHeader middle = mapHeader disk :=
    congrArg FileHeader.ofSector (changed.header sound.tree found (.fixed .freeMap))
  have kept := stored.kept
  obtain ⟨slot, used⟩ := sound.slot_map
  rw [same, ← slot] at kept
  refine ⟨fun owner s owns notMap notDir => ?_, ?_⟩
  · rw [kept s, changed.changedAt sound.tree found owner s owns notMap notDir]
    -- A sector that is owned by neither has not changed.
    intro here
    exact notMap (sound.unshared _ _ _ owns (here ▸ owns_slot (.fixed .freeMap) used))
  · -- The table is as it was changed.
    rw [← changed.dir]
    refine dirAt_congr (kept _ (sound.tree.header_ne_slot isHeader (.fixed .freeMap) used).symm)
      fun n inside => kept _ fun equal => ?_
    -- The slots of the directory are those from before, and none of them is the map's.
    have direct : n ≤ numDirect := show n ≤ 24 by omega
    rw [FileHeader.slot_direct _ _ direct, show headerAt middle parent = headerAt disk parent from
      congrArg FileHeader.ofSector header, ← FileHeader.slot_direct disk _ direct] at equal
    have there := (sound.tree.directory_block found inside).2
    exact sound.tree.directory_ne_map found
      (sound.tree.slot_inj isHeader (.fixed .freeMap) there equal).1

/-- The file system stays mounted when a file is removed. -/
theorem stillMounted (mounted : fs.Mounted disk) : fs.Mounted after := by
  refine ⟨mounted.freeMap.trans (left.keepsMap sound found).symm, mounted.directory.trans ?_⟩
  exact congrArg FileHeader.ofSector
    ((left.loses sound found).changed.header (isHeader_root disk)).symm

/-- The disk is sound after a file has been removed, unless its index sector was filled in part. -/
theorem stillSound (named : (holdings disk).entry parent i = some removed)
    (whole : ¬ (headerAt disk removed).PartIndexed) : Sound after := by
  have loses := left.loses sound found
  have tree := loses.stillTree sound.tree found named
  refine ⟨tree.unshared, fun owner s owns => ?_, tree.laid, ?_, tree.directory⟩
  · obtain ⟨before, notSelf, notSlot⟩ := loses.owns_old sound.tree found named owns
    obtain ⟨onDisk, marked⟩ := sound.marked owner s before
    obtain ⟨n, rfl⟩ := Int.eq_ofNat_of_zero_le onDisk.1
    refine ⟨onDisk, (left.bits n).mpr ⟨marked, fun j same => ?_, fun both => whole both.2, notSelf⟩⟩
    by_contra there
    exact notSlot j there same
  · rw [left.keepsMap sound found]
    exact sound.map.congr

end Removed

end Nachos
