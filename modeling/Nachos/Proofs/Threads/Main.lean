import Nachos.Proofs.Filesys.DirectoryTree
import Nachos.Threads.Main

/-! What becomes of a host file that is copied in: only an empty one is what it was. -/

namespace Nachos

/-- A host file has been copied in, and nothing else has changed. -/
structure Copied (disk after : Disk) (fs : FileSystem) (source path : List Byte) : Prop where
  -- The path names an ordinary file, which is printed as the host file.
  named : ∃ sector, (naming after).find directorySector (components path) = some sector ∧
    (headerAt after sector).type = .file
  prints : Fs.Reads after (fs.print path) (some source)
  -- All other files are what they were, and so are the paths that name them.
  files : ∀ sector, IsFile disk sector → headerAt after sector = headerAt disk sector ∧
    (headerAt after sector).contents after = (headerAt disk sector).contents disk
  tree : ∀ other, components other ≠ [] → ¬ components path <+: components other →
    (naming after).find directorySector (components other) =
      (naming disk).find directorySector (components other)
  system : ∀ sector, SystemSector sector → after sector = disk sector

/-- A path leads to a new name, and sectors enough are free for a file of this size. -/
structure Copyable (disk : Disk) (source path : List Byte) (parent : Int) (last : List Byte) :
    Prop where
  creatable : Creatable disk path parent last
  enough : FileHeader.usedSlots (divRoundUp source.length sectorSize) < (freeMapOn disk).numClear

/-- The host file is copied in wherever there is a place for it, whatever is in memory. -/
def CopyPreserves (source : List Byte) : Prop :=
  ∀ ⦃disk : Disk⦄ ⦃fs : FileSystem⦄ ⦃path last : List Byte⦄ ⦃parent : Int⦄,
    Sound disk → fs.Mounted disk → Copyable disk source path parent last →
      Fs.Yields disk (fs.copy source path) fun fs' after => Copied disk after fs' source path

section Empty

variable {disk after : Disk} {fs : FileSystem} {parent sector : Int}

/-- A file keeps its contents as long as nothing has changed but the map and a directory. -/
theorem ChangedAt.contents (changed : ChangedAt disk after parent) (sound : Sound disk)
    (found : IsDirectory disk parent) (isFile : IsFile disk sector) :
    (headerAt after sector).contents after = (headerAt disk sector).contents disk := by
  -- The header is the same, and with it the number of bytes.
  obtain ⟨header, slots, -⟩ := changed.part isFile.isHeader
  obtain ⟨laid, -⟩ := sound.laid sector isFile.isHeader
  have sizes := laid.sizes
  unfold FileHeader.contents FileHeader.bytesAt
  rw [show (headerAt after sector).limit = (headerAt disk sector).limit by rw [header]]
  apply List.map_congr_left
  intro k member
  have inside := List.mem_range.mp member
  -- Each byte is in the same sector, which belongs neither to the map nor to a directory.
  have counted : (0 + k) / sectorSize < (headerAt disk sector).nsectors.toNat := by
    simp only [sectorSize] at *
    omega
  -- The sector is one of the file's own.
  have used := (laid.used _).mpr (FileHeader.blockSlot_used counted)
  apply FileHeader.byteAt_congr
  · -- Its number in the header has not changed.
    exact slots _
  · exact changed.slot isFile.isHeader used ⟨fun both => isFile.ne_map both.1,
      fun both => isFile.ne_directory sound found both.1.symm⟩

/-- Nothing is printed of an empty file. -/
theorem printLoop_empty {file : OpenFile} (empty : file.hdr.limit ≤ file.seekPosition) (more : Nat) :
    Fs.Reads disk (printLoop (more + 1) file) [] := by
  -- The first call of `Read` finds nothing.
  have none : Fs.Reads disk (file.readAt transferSize file.seekPosition) [] := by
    unfold OpenFile.readAt
    dsimp only
    rw [if_pos (.inr (.inr empty))]
    exact Fs.Reads.pure _ _
  have reads : Fs.Reads disk (file.read transferSize) ([], file) := by
    unfold OpenFile.read
    refine none.bind ?_
    rw [show file.seekPosition + ([] : List Byte).length = file.seekPosition from Int.add_zero _]
    exact Fs.Reads.pure _ _
  -- The loop ends with an amount of 0.
  unfold printLoop
  exact reads.bind (Fs.Reads.pure _ _)

/-- An empty host file is copied in: it is created as an ordinary file, and nothing is written. -/
theorem copy_empty : CopyPreserves [] := by
  -- One step of the command after the other: create, open, the loop, and what `Print` then shows.
  intro disk fs path last parent sound mounted copyable
  have creatable := copyable.creatable
  have found := creatable.leads.isDirectory .root
  unfold FileSystem.copy
  -- The length of the host file is the number of the right kind.
  have kind : FileType.ofWord (.ofNat 32 ([] : List Byte).length) = .file := by decide
  dsimp only
  rw [kind]
  refine (FileSystem.create_yields sound mounted creatable (.inl rfl)).bind ?_
  rintro _ after ⟨rfl, i, newSector, fresh, made⟩
  obtain ⟨leads, named, entry, opens⟩ := made.open_reads sound mounted creatable
  -- The new file has no bytes.
  obtain ⟨limit, -⟩ := made.new.file rfl
  have gains := made.gains sound found
  have tree := sound.tree
  have cut := creatable.leads.cut
  -- The change of the directory is one of the tree of files.
  obtain ⟨names, split, led⟩ := (tree.readable.leads_iff_walk .root).mp creatable.leads
  have changes := gains.changed.changes tree fun name => gains.lookup_other cut
  -- Nothing is printed.
  have prints : Fs.Reads after (fs.print path) (some []) := by
    unfold FileSystem.print
    refine opens.bind ((printLoop_empty ?_ _).bind (Fs.Reads.pure _ _))
    exact limit.le
  -- The loop over the host file ends at once.
  refine opens.bind ?_
  unfold copyLoop
  refine Program.Yields.pure ⟨⟨newSector, ?_, made.new.type⟩, prints, fun sector isFile =>
    ⟨(gains.changed.part isFile.isHeader).1, gains.changed.contents sound found isFile⟩,
    -- The path leads to the new file.
    fun other some apart => ?_, fun sector system => gains.changed.header (.fixed system)⟩
  · have finds := changes.find_self tree.single led
    rw [split, finds, gains.lookup_self creatable.absent cut]
  · -- Other paths lead where they led.
    rw [split] at apart
    exact changes.find_other tree.single led apart

end Empty

section OneByte

variable {disk : Disk} {fs : FileSystem} {path last : List Byte} {parent : Int}

/-- A host file of one byte becomes a directory, over whose table the byte is written. -/
theorem copy_oneByte (sound : Sound disk) (mounted : fs.Mounted disk)
    (creatable : Creatable disk path directorySector last)
    (enough : 3 ≤ (freeMapOn disk).numClear) (byte : Byte) :
    Fs.Yields disk (fs.copy [byte] path) fun _ after => ∃ sector,
      (naming after).lookup directorySector last = some sector ∧
        (headerAt after sector).type = .dir := by
  have cut := creatable.leads.cut
  unfold FileSystem.copy
  -- The length of the host file is the number of another kind.
  have kind : FileType.ofWord (.ofNat 32 [byte].length) = .dir :=
    show FileType.ofWord (.ofNat 32 1) = .dir by decide
  dsimp only
  rw [kind]
  refine (FileSystem.create_yields sound mounted creatable (.inr ⟨rfl, enough⟩)).bind ?_
  rintro _ after ⟨rfl, i, newSector, fresh, made⟩
  -- The file can be opened after its creation.
  obtain ⟨-, named, entry, opens⟩ := made.open_reads sound mounted creatable
  have still := made.stillSound sound .root
  -- It is a file of the tree, so its header is known to be sound.
  have adds := (made.gains sound .root).adds sound.tree .root
  have isHeader : IsHeader after newSector := .entry (adds.directory_kept .root) adds.named
  obtain ⟨inOrder, -⟩ := made.new.dir rfl
  -- Sector 0 is owned, so it is not the one that was free.
  have positive := (sound.ofDisk.free (made.takes.clear _ List.mem_cons_self).1
    (made.takes.clear _ List.mem_cons_self).2).1
  have ready : Ready after (headerAt after newSector) :=
    still.ready isHeader (show (newSector : Int) ≠ 0 by omega)
  have room : (0 + [byte].length : Nat) ≤ (headerAt after newSector).capacity := by
    rw [ready.laid.capacity, inOrder.nsectors]
    exact show (0 + 1 : Int) ≤ 2 * 128 by decide
  -- The byte goes into a block that the directory has.
  have writes := @OpenFile.writeAt_yields after ⟨headerAt after newSector, 0⟩ ready [byte] 0
    Nat.one_pos ready.laid.limit.1 (OpenFile.affordable_within ready.laid room)
  -- The byte is written in one round of the loop, and the next one finds no more.
  have loops : Fs.Yields after (copyLoop 2 ⟨headerAt after newSector, 0⟩ [byte]) fun _ late =>
      ∃ hdr' fresh, OpenFile.Wrote after late (headerAt after newSector) hdr' [byte] 0 fresh := by
    unfold copyLoop
    have written : Fs.Yields after (OpenFile.write ⟨headerAt after newSector, 0⟩ [byte])
        fun _ late => ∃ hdr' fresh,
          OpenFile.Wrote after late (headerAt after newSector) hdr' [byte] 0 fresh := by
      refine writes.bind ?_
      rintro _ late ⟨hdr', fresh, rfl, wrote⟩
      exact Program.Yields.pure ⟨hdr', fresh, wrote⟩
    refine written.bind fun given late wrote => ?_
    exact Program.Yields.pure wrote
  refine opens.bind (loops.bind fun _ late wrote => Program.Yields.pure ?_)
  obtain ⟨hdr', fresh', wrote⟩ := wrote
  -- The root directory is another file than the new one.
  have other : directorySector ≠ (newSector : Int) := fun same =>
    made.unmarked List.mem_cons_self (same ▸ (sound.header_marked (isHeader_root disk)).2)
  refine ⟨newSector, ?_, ?_⟩
  · -- The name is still in the table of the root.
    rw [lookup_congr (wrote.dirAt_ne still isHeader .root other), lookup_eq cut, named,
      Option.map_some, entry]
  · -- A write does not change the kind of the file.
    rw [wrote.header_self still isHeader, wrote.grew.type]
    exact inOrder.type

end OneByte

section Longer

variable {disk after : Disk} {fs : FileSystem} {path last : List Byte} {parent : Int}

/-- What nobody owns may be anything on a sound disk. -/
theorem OwnedKept.sound (kept : OwnedKept disk after) (sound : Sound disk) :
    Sound after ∧ freeMapOn after = freeMapOn disk := by
  -- The tree is one of what is owned.
  have tree := kept.stillTree sound.tree
  obtain ⟨slot, used⟩ := sound.slot_map
  -- The map has an owner too, so that its bits are as they were.
  have block : after ((mapHeader disk).dataSector 0) = disk ((mapHeader disk).dataSector 0) := by
    have owns := owns_slot (.fixed .freeMap) used
    rw [slot] at owns
    exact kept _ _ owns
  -- With the block of the map, the map is the same.
  obtain ⟨header, map⟩ := freeMapOn_congr (kept.changedAt.header (.fixed .freeMap)) block
  refine ⟨⟨tree.unshared, fun owner s owns => ?_, tree.laid, ?_, tree.directory⟩, map⟩
  · -- Whoever owns a sector did so before.
    have before := sound.marked owner s (kept.owns_old sound.tree owns)
    unfold Marked
    rw [map]
    exact before
  · -- The header of the map is owned.
    rw [header]
    exact sound.map.congr

/-- A file can be created as long as nothing that is owned has changed. -/
theorem OwnedKept.creatable (kept : OwnedKept disk after) (sound : Sound disk)
    (able : Creatable disk path parent last) : Creatable after path parent last := by
  have found := able.leads.isDirectory .root
  -- The map and the table of the parent are owned, so they are as they were.
  obtain ⟨-, map⟩ := kept.sound sound
  have table := kept.dirAt_same sound.tree found
  refine ⟨?_, ?_, ?_, ?_⟩
  · -- The path leads through directories, which are owned.
    exact able.leads.congr .root (fun s => kept.dirAt_same sound.tree) fun s isHeader =>
      congrArg FileHeader.type (kept.changedAt.part isHeader).1
  · rw [table]
    exact able.absent
  · rw [table]
    exact able.room
  · rw [map]
    exact able.free

/-- Storing the map changes no directory. -/
theorem dirAt_of_mapStored {middle : Disk} {map : PersistentBitmap}
    (stored : MapStored middle after map) (sound : Sound disk) (found : IsDirectory disk parent)
    (sameMap : mapHeader middle = mapHeader disk) (same : middle parent = disk parent) :
    dirAt after parent = dirAt middle parent := by
  have isHeader := isHeader_of_directory found
  have isMap : IsHeader disk freeMapSector := .fixed .freeMap
  obtain ⟨slot, used⟩ := sound.slot_map
  have headers : headerAt middle parent = headerAt disk parent := congrArg FileHeader.ofSector same
  refine dirAt_congr (stored.kept _ ?_) fun n inside => stored.kept _ ?_
  · -- The header of the directory is not the sector of the map.
    rw [sameMap, ← slot]
    exact (sound.tree.header_ne_slot isHeader isMap used).symm
  · -- Nor are the two sectors of its table.
    have direct : n ≤ numDirect := show n ≤ 24 by omega
    have there := (sound.tree.directory_block found inside).2
    rw [sameMap, ← slot, headers, FileHeader.slot_direct _ _ direct,
      ← FileHeader.slot_direct disk _ direct]
    intro same
    exact sound.tree.directory_ne_map found (sound.tree.slot_inj isHeader isMap there same).1

/-- For other kinds than the two that it knows, `Create` leaves its result as it was in memory. -/
theorem setUp_unknown {kind : FileType} (other : kind ≠ .file ∧ kind ≠ .dir) {hdr : FileHeader}
    {freeMap : PersistentBitmap} {sector : Int} {world : World}
    (zero : world.surroundings.memory = fun _ _ => 0) :
    (FileSystem.setUp hdr freeMap sector kind).run World.serve world =
      some ((false, freeMap), { world with asked := world.asked + 1 }) := by
  -- The source sets its result for files and directories only.
  have unset : FileSystem.setUp hdr freeMap sector kind = (do
      let success ← Fs.allocate 1
      return (success.getD 0 0 ≠ 0, freeMap)) := by
    cases kind with
    | file => exact absurd rfl other.1
    | dir => exact absurd rfl other.2
    | pipe => rfl
    | unknown => rfl
    | outside number unnamed => rfl
  -- The memory that `bool` finds is zero.
  have bytes : world.surroundings.leftover world.asked 1 = [0] := by
    unfold Surroundings.leftover
    rw [zero]
    rfl
  rw [unset, Program.run_bind]
  simp only [Fs.allocate, Program.run_ask, World.serve, bytes]
  rfl

/-- Every other kind of file has its name entered, and its header is not written. -/
theorem create_unknown {kind : FileType} (sound : Sound disk) (mounted : fs.Mounted disk)
    (creatable : Creatable disk path parent last) (other : kind ≠ .file ∧ kind ≠ .dir)
    {world : World} (seen : world.disk = disk) (zero : world.surroundings.memory = fun _ _ => 0) :
    ∃ fs' final i sector, (fs.create path kind).run World.serve world = some ((false, fs'), final) ∧
      Directory.Entered (dirAt disk parent) (dirAt final.disk parent) i last (sector : Nat) ∧
      ¬ Marked disk sector ∧ final.disk sector = disk sector := by
  -- The beginning of `Create` is the same for every kind.
  have found := creatable.leads.isDirectory .root
  have map : IsHeader disk freeMapSector := .fixed .freeMap
  obtain ⟨i, sector, freeMap, dir, takes, entered, goesOn⟩ :=
    FileSystem.create_goesOn sound mounted creatable kind
  have unmarked : ∀ {s}, Marked disk s → (sector : Int) ≠ s := fun marked =>
    OpenFile.fresh_unmarked takes List.mem_cons_self marked
  -- The name is entered in the directory, and that is stored.
  obtain ⟨middle, changed, around, runs⟩ := goesOn world seen
  have sameMap : mapHeader middle.disk = mapHeader disk :=
    congrArg FileHeader.ofSector (changed.header sound.tree found map)
  have mapFile : MapFile middle.disk (mapHeader middle.disk) := sameMap ▸ sound.map.congr
  -- The header is made in memory, the result is what is there, and the map is stored.
  obtain ⟨hdr, first, made, held, -⟩ := FileHeader.new_finds middle.disk sector kind middle rfl
  have set := @setUp_unknown kind other hdr freeMap sector first
    (by rw [Fs.surroundings_kept made, around, zero])
  rw [← held] at sameMap mapFile
  obtain ⟨given, final, stores, rfl, stored⟩ := PersistentBitmap.writeBack_yields mapFile
    (mounted.freeMap.trans sameMap.symm) takes.numBits { first with asked := first.asked + 1 } rfl
  -- The rest of `Create`, one call after the other.
  have ran : (fs.createHeader freeMap sector kind).run World.serve middle =
      some ((false, fs), final) := by
    unfold FileSystem.createHeader
    rw [Program.run_bind, made]
    dsimp only [Option.bind_some]
    rw [Program.run_bind, set]
    dsimp only [Option.bind_some]
    rw [Program.run_bind, stores]
    rfl
  refine ⟨fs, final, i, sector, runs.trans ran, ?_, fun marked => unmarked marked rfl, ?_⟩
  · -- The directory keeps the entry when the map is stored.
    rw [dirAt_of_mapStored stored sound found sameMap ?_, held, changed.dir]
    · exact entered
    · exact (congrFun held parent).trans
        (changed.header sound.tree found (isHeader_of_directory found))
  · -- The sector of the header is neither that of the map nor one of the directory.
    obtain ⟨slot, used⟩ := sound.slot_map
    have isHeader := isHeader_of_directory found
    rw [stored.kept _ ?_, congrFun held, changed.kept _ fun n inside => ?_]
    · exact unmarked (sound.slot_marked isHeader (sound.tree.directory_block found inside).2).2
    · rw [sameMap, ← slot]
      exact unmarked (sound.slot_marked map used).2

end Longer

section Nonempty

variable {source : List Byte}

/-- A disk that has been formatted has a place for a name. -/
theorem exists_formatted : ∃ (disk : Disk) (fs : FileSystem), Sound disk ∧ fs.Mounted disk ∧
    Creatable disk [97] directorySector [97] ∧ (freeMapOn disk).numClear = 1010 := by
  obtain ⟨started, formats⟩ := Session.format_succeeds (World.ofDisk fun _ => .ofBytes [])
  have formatted := (Session.formatted formats).1
  obtain ⟨given, systemOnly⟩ := formatted.systemOnly
  exact ⟨started.disk, started.fs, systemOnly.sound, formatted.mounted,
    Session.creatable_formatted formatted, formatted.free⟩

/-- A path of one name finds what the name stands for in the root. -/
theorem find_components_oneName (disk : Disk) : (naming disk).find directorySector (components [97]) =
    (naming disk).lookup directorySector [97] := by
  rw [show components [97] = [] ++ [[97]] by decide, Naming.find_concat]
  rfl

/-- A host file of one byte is not copied in. -/
theorem not_copyPreserves_oneByte (byte : Byte) : ¬ CopyPreserves [byte] := by
  intro preserves
  -- The file is copied to a disk that has just been formatted.
  obtain ⟨disk, fs, sound, mounted, creatable, free⟩ := exists_formatted
  have few : FileHeader.usedSlots (divRoundUp [byte].length sectorSize) = 1 :=
    show FileHeader.usedSlots (divRoundUp 1 sectorSize) = 1 by decide
  obtain ⟨fs', final, ran, copied⟩ :=
    preserves sound mounted ⟨creatable, by rw [few, free]; decide⟩ (World.ofDisk disk) rfl
  -- The path names a directory, and not an ordinary file.
  obtain ⟨sector, named, type⟩ :=
    (copy_oneByte sound mounted creatable (by rw [free]; decide) byte).holds rfl ran
  obtain ⟨other, found, file⟩ := copied.named
  rw [find_components_oneName, named] at found
  cases found
  rw [type] at file
  cases file

/-- A sector full of ones holds no header of an ordinary file. -/
theorem type_ones : (FileHeader.ofSector (.replicate sectorSize 1)).type ≠ .file := by decide

/-- A host file of more bytes is not copied in. -/
theorem not_copyPreserves_more (more : 2 ≤ source.length) (fits : source.length ≤ maxFileSize) :
    ¬ CopyPreserves source := by
  intro preserves
  obtain ⟨disk, fs, sound, mounted, creatable, free⟩ := exists_formatted
  -- What nobody owns is full of ones, and the memory is full of zeros.
  classical
  let ones : Disk := fun s =>
    if ∃ owner, Owns disk owner s then disk s else .replicate sectorSize 1
  have kept : OwnedKept disk ones := fun owner s owns => if_pos ⟨owner, owns⟩
  obtain ⟨sound', map⟩ := kept.sound sound
  have creatable' := kept.creatable sound creatable
  -- The disk with ones is like the one without.
  have mounted' := kept.changedAt.mounted mounted
  -- There is room for a file of this length.
  have few : FileHeader.usedSlots (divRoundUp source.length sectorSize) ≤ 57 := by
    unfold FileHeader.usedSlots divRoundUp
    simp only [maxFileSize, numDirect, numInDirect, sectorSize] at *
    split <;> split <;> omega
  obtain ⟨fs', final, ran, copied⟩ :=
    preserves sound' mounted' ⟨creatable', by rw [map, free]; omega⟩ (World.ofDisk ones) rfl
  -- The length of the host file is the number of neither of the kinds that are known.
  have number : (BitVec.ofNat 32 source.length).toNat = source.length :=
    Nat.mod_eq_of_lt (fits.trans_lt (by decide))
  have kind : FileType.ofWord (.ofNat 32 source.length) ≠ .file ∧
      FileType.ofWord (.ofNat 32 source.length) ≠ .dir := by
    refine ⟨fun same => ?_, fun same => ?_⟩
    all_goals
      have word := congrArg (BitVec.toNat ∘ FileType.toWord) same
      dsimp only [Function.comp_apply] at word
      rw [FileType.toWord_ofWord, number] at word
      exact absurd (word ▸ more) (by decide)
  -- So the file is created without its header.
  obtain ⟨fs'', final', i, sector, created, entered, unmarked, stale⟩ :=
    create_unknown sound' mounted' creatable' kind
      (show (World.ofDisk ones).disk = ones by rfl) rfl
  unfold FileSystem.copy at ran
  dsimp only at ran
  rw [Program.run_bind, created] at ran
  cases ran
  -- The name stands for a header that has not been written.
  obtain ⟨other, found, file⟩ := copied.named
  have cut := creatable.leads.cut
  rw [find_components_oneName, lookup_eq cut, entered.findIndex_self creatable'.absent,
    Option.map_some, entered.entrySector, if_pos rfl] at found
  -- Its sector was free, so nobody owned it, and it holds ones.
  cases found
  have unowned : ¬ ∃ owner, Owns disk owner sector := by
    rintro ⟨owner, owns⟩
    unfold Marked at unmarked
    rw [map] at unmarked
    exact sound.unowned unmarked owner owns
  -- Ones are no header of a file.
  unfold headerAt at file
  rw [stale] at file
  dsimp only [ones] at file
  rw [if_neg unowned] at file
  exact type_ones file

/-- A host file is copied in whole, wherever there is a place for it, only if it is empty. -/
theorem copy_preserves_iff (fits : source.length ≤ maxFileSize) :
    CopyPreserves source ↔ source = [] := by
  refine ⟨fun preserves => ?_, fun empty => empty ▸ copy_empty⟩
  rcases source with _ | ⟨byte, _ | ⟨second, rest⟩⟩
  · rfl
  · exact absurd preserves (not_copyPreserves_oneByte byte)
  · exact absurd preserves (not_copyPreserves_more (Nat.le_add_left 2 rest.length) fits)

/-- Nothing is lost of a host file that holds nothing. -/
theorem copy_preserves_nothing : CopyPreserves [] :=
  (@copy_preserves_iff [] (Nat.zero_le _)).mpr rfl

/-- A host file that holds one byte is not what its copy is. -/
theorem copy_loses_oneByte : ¬ CopyPreserves [7] := not_copyPreserves_oneByte 7

end Nonempty

end Nachos
