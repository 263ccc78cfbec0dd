import Nachos.Proofs.Filesys.Deallocate
import Nachos.Proofs.Filesys.Paths

/-! Removing a file: which bits of the map are cleared, and what is left of the directory. -/

namespace Nachos

variable {disk after : Disk} {fs : FileSystem} {path last : List Byte} {parent : Int} {i : Nat}

/-- What is left when a file has been removed. -/
structure Removed (disk after : Disk) (parent : Int) (i : Nat) (sector : Int) : Prop where
  stored : ∃ middle, Directory.Changed disk middle parent ((dirAt disk parent).setInUse i false) ∧
    MapStored middle after (freeMapOn after)
  bits : ∀ s : Nat, Marked after s ↔ Marked disk s ∧
    (∀ j, (headerAt disk sector).slot disk j = s → (headerAt disk sector).slot disk j = 0) ∧
    ¬ (s = 0 ∧ (headerAt disk sector).PartIndexed) ∧ (s : Int) ≠ sector

/-- `Remove` removes the file that a path names. -/
theorem FileSystem.remove_yields (sound : Sound disk) (mounted : fs.Mounted disk)
    (leads : Leads disk directorySector path parent last)
    (named : (dirAt disk parent).findIndex last = some i) :
    Fs.Yields disk (fs.remove path) fun given after => given = (true, fs) ∧
      Removed disk after parent i ((dirAt disk parent).entrySector i) := by
  have found := leads.isDirectory .root
  obtain ⟨inside, inUse, -, lookup⟩ := Directory.findIndex_some named
  have header := isHeader_of_entry found inside inUse
  have onDisk := (sound.header_marked header).1
  generalize sectorEq : (dirAt disk parent).entrySector i = sector at *
  -- First everything is read: the root, the sector of the name, the header there, and the map.
  unfold FileSystem.remove
  refine (FileSystem.rootDirectory_reads sound.readable mounted).bind ?_
  refine (Directory.find_leads sound.readable leads).bind ?_
  rw [lookup, if_neg (by omega)]
  refine (FileHeader.fetchFrom_reads onDisk).bind ?_
  refine (PersistentBitmap.ofFile_reads sound.map mounted.freeMap).bind ?_
  have laid := (sound.laid sector header).1
  -- The map in memory gives the sectors of the file back, and then that of its header.
  refine (FileHeader.deallocate_finds laid rfl).bind ?_
  rintro ⟨hdr', freed⟩ ⟨all, bits⟩
  dsimp only at all bits ⊢
  obtain ⟨map, clears, cleared⟩ := @Bitmap.clear_cleared freed sector (by
    unfold Bitmap.InRange
    rw [all]
    exact onDisk)
  refine (Fs.Reads.ofOption disk clears).bind ?_
  have changes : Directory.removeInCurrentDir (dirAt disk parent) last =
      some ((dirAt disk parent).setInUse i false) := by
    unfold Directory.removeInCurrentDir
    rw [named]
    rfl
  have length := Directory.length_setInUse (Directory.length_table_dirAt disk parent) inside false
  -- The directory is stored before the map is, and its sectors are not those of the map.
  unfold Directory.remove
  refine (Directory.changeParent_yields sound.tree leads changes length
    (sound.directory parent found).self).bind ?_
  rintro _ middle ⟨-, changed⟩
  have same : mapHeader middle = mapHeader disk :=
    congrArg FileHeader.ofSector (changed.header sound.tree found (.fixed .freeMap))
  have mapFile : MapFile middle (mapHeader middle) := same ▸ sound.map.congr
  refine (PersistentBitmap.writeBack_yields mapFile (mounted.freeMap.trans same.symm)
    (cleared.numBits.trans all)).bind ?_
  rintro _ after ⟨rfl, stored⟩
  -- What is stored in the end is the map that was changed in memory, bit by bit.
  refine Program.Yields.pure ⟨rfl, ⟨middle, changed, ?_⟩, fun s => ?_⟩
  · rwa [stored.map]
  · unfold Marked
    rw [stored.map, Int.toNat_natCast, cleared.bit, Bool.and_eq_true, Bool.not_eq_true',
      decide_eq_false_iff_not, bits, List.mem_singleton, and_assoc, and_assoc]
    have number : ¬ s = sector.toNat ↔ (s : Int) ≠ sector := by omega
    rw [number]

end Nachos
