import Mathlib.Data.List.DropRight
import Mathlib.Data.List.TakeWhile
import Nachos.Filesys.Directory
import Nachos.Proofs.Filesys.Contents

/-! Directories on the disk: how they are read, changed and written, and where paths lead. -/

namespace Nachos

/-- The number of bytes of a directory's file: its own sector, and the table. -/
abbrev directoryLimit : Nat := 4 + directoryFileSize

/-- The directory whose header is at a sector, as its file has it. -/
def dirAt (disk : Disk) (sector : Int) : Directory where
  sector := intAt ((headerAt disk sector).bytesAt disk 0 4) 0
  table := (headerAt disk sector).bytesAt disk 4 directoryFileSize

/-- A directory stays as it is as long as its header and its two sectors do. -/
theorem dirAt_congr {disk after : Disk} {sector : Int} (self : after sector = disk sector)
    (blocks : ∀ n < 2, after ((headerAt disk sector).slot disk n) =
      disk ((headerAt disk sector).slot disk n)) : dirAt after sector = dirAt disk sector := by
  -- The header is read from its own sector.
  have header : headerAt after sector = headerAt disk sector := congrArg FileHeader.ofSector self
  -- A byte of the file lies in the first or the second of its sectors.
  have byte : ∀ k < directoryLimit,
      (headerAt disk sector).byteAt after k = (headerAt disk sector).byteAt disk k := by
    intro k inside
    have within : k < 204 := inside
    have first : k / sectorSize < 2 := by
      simp only [sectorSize]
      omega
    -- Both sectors are in direct slots, which the disk has no part in.
    have direct : FileHeader.blockSlot (k / sectorSize) = k / sectorSize :=
      if_pos (show k / sectorSize < 24 by omega)
    have slot : ∀ disk', (headerAt disk sector).block disk' (k / sectorSize) =
        (headerAt disk sector).dataSector (k / sectorSize) := by
      intro disk'
      unfold FileHeader.block FileHeader.slot
      rw [direct, if_pos (show k / sectorSize ≤ 24 by omega)]
    have held := blocks _ first
    refine FileHeader.byteAt_congr ((slot after).trans (slot disk).symm) ?_
    unfold FileHeader.block
    rw [direct]
    exact held
  -- So the two parts of the directory are the same.
  have part : ∀ position count, position + count ≤ directoryLimit →
      (headerAt disk sector).bytesAt after position count =
        (headerAt disk sector).bytesAt disk position count := by
    intro position count within
    apply List.map_congr_left
    intro i member
    have inside := List.mem_range.mp member
    exact byte _ (by omega)
  unfold dirAt
  rw [header, part 0 4 (by decide), part 4 directoryFileSize (by decide)]

/-- Bytes that a file has are all read, if their sectors are found. -/
theorem OpenFile.readAt_within {disk : Disk} (file : OpenFile) {sectors : Nat}
    (found : file.hdr.Found disk sectors) {position count : Nat} (some : 0 < count)
    (within : (position + count : Nat) ≤ file.hdr.limit)
    (reach : position + count ≤ sectors * sectorSize) (small : position + count < 2 ^ 31) :
    Fs.Reads disk (file.readAt count position) (file.hdr.bytesAt disk position count) := by
  have reads := readAt_found found position (Int.natCast_pos.mpr some) (by exact_mod_cast small)
    (by omega)
  have all : min (count : Int).toNat (file.hdr.limit.toNat - position) = count := by omega
  rwa [all] at reads

namespace Directory

variable {disk after : Disk} {dir : Directory} {file : OpenFile}

@[simp] theorem length_table_dirAt (disk : Disk) (sector : Int) :
    (dirAt disk sector).table.length = directoryFileSize := FileHeader.length_bytesAt _ _ _ _

/-- A directory is read from its file, whatever is in memory before. -/
theorem fetchFrom_reads {sector : Int} (found : (headerAt disk sector).Found disk 2)
    (limit : (directoryLimit : Int) ≤ (headerAt disk sector).limit)
    (table : dir.table.length = directoryFileSize) (position : Int) :
    Fs.Reads disk (dir.fetchFrom ⟨headerAt disk sector, position⟩) (dirAt disk sector) := by
  have long : (204 : Int) ≤ (headerAt disk sector).limit := limit
  -- The number is in the first four bytes.
  have number : Fs.Reads disk (OpenFile.readAt ⟨headerAt disk sector, position⟩ (4 : Nat) (0 : Nat))
      ((headerAt disk sector).bytesAt disk 0 4) :=
    OpenFile.readAt_within ⟨_, position⟩ found (by decide)
      (show ((0 + 4 : Nat) : Int) ≤ (headerAt disk sector).limit by omega) (by decide) (by omega)
  -- The table is behind it.
  have entries : Fs.Reads disk
      (OpenFile.readAt ⟨headerAt disk sector, position⟩ directoryFileSize (4 : Nat))
      ((headerAt disk sector).bytesAt disk 4 directoryFileSize) :=
    OpenFile.readAt_within ⟨_, position⟩ found (by decide) limit (by decide)
      (show 4 + 200 < 2 ^ 31 by omega)
  -- Both reads fill their fields, so that nothing of what was in memory is left.
  unfold fetchFrom
  refine number.bind (entries.bind ?_)
  rw [splice_whole (by simp), splice_whole (by simp [table])]
  exact Fs.Reads.pure disk _

/-- The bytes of a directory's file. -/
def bytes (dir : Directory) : List Byte := intBytes dir.sector ++ dir.table

/-- What `WriteBack` of a directory leaves. -/
structure WroteBack (disk after : Disk) (dir : Directory) (hdr : FileHeader) : Prop where
  stored : after hdr.selfSector = FileHeader.toSector { hdr with limit := directoryLimit }
  bytes : ∀ k < directoryLimit, hdr.byteAt after k = dir.bytes.getD k 0
  frame : ∀ s, s ≠ hdr.selfSector → (∀ n < hdr.nsectors.toNat, s ≠ hdr.block disk n) →
    after s = disk s

/-- The header of a directory that has been written back says how long it is. -/
theorem WroteBack.headerAt_eq {hdr : FileHeader} (wrote : WroteBack disk after dir hdr)
    (laid : hdr.Laid disk) (room : directoryLimit ≤ hdr.capacity) {sector : Int}
    (self : hdr.selfSector = sector) :
    headerAt after sector = { hdr with limit := directoryLimit } := by
  have within : (0 : Int) ≤ directoryLimit ∧ (directoryLimit : Int) ≤ hdr.capacity :=
    ⟨Int.natCast_nonneg _, room⟩
  have laid' : FileHeader.Laid disk { hdr with limit := directoryLimit } :=
    laid.congr rfl rfl rfl rfl within fun _ => rfl
  unfold headerAt
  rw [← self, wrote.stored]
  exact FileHeader.ofSector_toSector laid'.small

/-- A directory is written back to a file that has sectors enough for it. -/
theorem writeBack_yields (laid : file.hdr.Laid disk) (room : directoryLimit ≤ file.hdr.capacity)
    (table : dir.table.length = directoryFileSize) :
    Fs.Yields disk (dir.writeBack file) fun given after =>
      given.hdr = { file.hdr with limit := directoryLimit } ∧
        WroteBack disk after dir file.hdr := by
  have enough : (204 : Int) ≤ file.hdr.capacity := room
  have long : dir.table.length = 200 := table
  have four := length_intBytes dir.sector
  -- The first write cuts the file down to the number, and the second one makes it whole again.
  have first : Fs.Yields disk (file.writeAt (intBytes dir.sector) 0) fun given after =>
      given = (4, { file with hdr := { file.hdr with limit := 4 } }) ∧
        OpenFile.Written disk after file.hdr (intBytes dir.sector) 0 := by
    have writes := OpenFile.writeAtNested_within 1 laid (intBytes dir.sector) 0 (by omega)
      laid.limit.1 (by omega)
    rw [four] at writes
    exact writes
  unfold writeBack
  refine first.bind ?_
  rintro _ middle ⟨rfl, first⟩
  dsimp only
  -- In between the file is cut, so that its header is another one.
  generalize short : ({ file.hdr with limit := 4 } : FileHeader) = hdr
  have index : file.hdr.dataSector numDirect ≠ 0 →
      middle (file.hdr.dataSector numDirect) = disk (file.hdr.dataSector numDirect) := fun used =>
    first.frame _ (laid.index_inRange used).2 fun n counted => (laid.block_ne_index counted).symm
  -- It is still laid out.
  have moved : hdr.Laid middle := by
    have limits : (0 : Int) ≤ 4 ∧ (4 : Int) ≤ file.hdr.capacity := ⟨by decide, by omega⟩
    rw [← short]
    exact laid.congr rfl rfl rfl rfl limits index
  -- Its sectors are the same ones.
  have blocks : ∀ n, hdr.block middle n = file.hdr.block disk n := fun n =>
    FileHeader.slot_congr (by rw [← short]) index _
  -- The second write goes to the end of the file again.
  have second : Fs.Yields middle (OpenFile.writeAt { file with hdr } dir.table 4) fun given after =>
      given = ((dir.table.length : Int), { file with hdr := { hdr with limit := directoryLimit } }) ∧
        OpenFile.Written middle after hdr dir.table 4 := by
    have started : ((4 : Nat) : Int) ≤ hdr.limit := by rw [← short]; exact le_refl _
    have fits : ((4 + dir.table.length : Nat) : Int) ≤ hdr.capacity := by
      rw [← short]
      dsimp only
      omega
    have held : OpenFile.hdr { file with hdr } = hdr := rfl
    have writes := OpenFile.writeAtNested_within 1 (held ▸ moved) dir.table 4 (by omega)
      started fits
    rw [table] at writes ⊢
    exact writes
  refine second.bind ?_
  rintro _ after ⟨rfl, second⟩
  -- Cutting it has changed neither its own sector nor how many it has.
  have self : hdr.selfSector = file.hdr.selfSector := by rw [← short]
  have count : hdr.nsectors = file.hdr.nsectors := by rw [← short]
  refine Program.Yields.pure ⟨by rw [← short], ?_, fun k inside => ?_, fun s other outside => ?_⟩
  · -- The header on the disk is that of the second write.
    have stored := second.stored
    rw [self, long, ← short] at stored
    exact stored
  · -- The bytes are the number and the table behind it.
    have here := second.bytes k (by rw [table]; exact inside)
    have same : hdr.byteAt after k = file.hdr.byteAt after k := by rw [← short, OpenFile.byteAt_limit]
    have before : hdr.byteAt middle k = file.hdr.byteAt middle k := by
      rw [← short, OpenFile.byteAt_limit]
    rw [same] at here
    rw [here, bytes]
    split
    · -- In the table they are those of the second write.
      rw [List.getD_append_right _ _ _ _ (by omega), four]
    · -- In the number they are those of the first one.
      rw [List.getD_append _ _ _ _ (by omega), before, first.bytes k (by omega),
        if_pos (Nat.zero_le k), Nat.sub_zero]
  · -- No other sector has been written to by either.
    rw [second.frame s (self ▸ other) fun n counted => ?_, first.frame s other outside]
    rw [blocks]
    exact outside n (count ▸ counted)

section Memory

variable {dir' : Directory} {i j : Nat} {name : List Byte} {newSector : Int}

/-- Setting a flag sets that flag only. -/
theorem inUse_setInUse (dir : Directory) (i : Nat) (inUse : Bool) (j : Nat) :
    (dir.setInUse i inUse).inUse j = if j = i then inUse else dir.inUse j := by
  unfold Directory.inUse setInUse
  simp only [sizeofDirectoryEntry, getD_splice, List.length_singleton]
  by_cases same : j = i
  · subst same
    cases inUse <;> simp
  · rw [if_neg (by omega), if_neg same]

/-- Setting a flag keeps the size of the table. -/
theorem length_setInUse (table : dir.table.length = directoryFileSize) (inside : i < numDirEntries)
    (inUse : Bool) : (dir.setInUse i inUse).table.length = directoryFileSize := by
  have long : dir.table.length = 200 := table
  have few : i < 10 := inside
  simp only [setInUse, length_splice, List.length_singleton, sizeofDirectoryEntry, long]
  show max 200 (20 * i + 1) = 200
  omega

/-- Setting a flag changes no header sector. -/
theorem entrySector_setInUse (table : dir.table.length = directoryFileSize)
    (inside : i < numDirEntries) (inUse : Bool) (j : Nat) :
    (dir.setInUse i inUse).entrySector j = dir.entrySector j := by
  have long : dir.table.length = 200 := table
  have few : i < 10 := inside
  unfold entrySector intAt wordAt setInUse
  simp only [sizeofDirectoryEntry]
  rw [take_drop_splice_apart (by simp only [List.length_singleton]; omega)
    (by simp only [List.length_singleton]; omega)]

/-- Setting a flag changes no name. -/
theorem entryName_setInUse (table : dir.table.length = directoryFileSize)
    (inside : i < numDirEntries) (inUse : Bool) (j : Nat) :
    (dir.setInUse i inUse).entryName j = dir.entryName j := by
  have long : dir.table.length = 200 := table
  have few : i < 10 := inside
  unfold entryName cString setInUse
  simp only [sizeofDirectoryEntry, fileNameMaxLen]
  rw [take_drop_splice_apart (by simp only [List.length_singleton]; omega)
    (by simp only [List.length_singleton]; omega)]

/-- One more entry is in use, for a name and a header sector. -/
structure Entered (dir dir' : Directory) (i : Nat) (name : List Byte) (newSector : Int) : Prop where
  inside : i < numDirEntries
  free : dir.inUse i = false
  sector : dir'.sector = dir.sector
  table : dir'.table.length = directoryFileSize
  inUse : ∀ j, dir'.inUse j = (decide (j = i) || dir.inUse j)
  entrySector : ∀ j, dir'.entrySector j = if j = i then newSector else dir.entrySector j
  entryName : ∀ j, dir'.entryName j = if j = i then cString fileNameMaxLen name else dir.entryName j

/-- A name that is cut is not cut any further. -/
theorem cString_padded (name : List Byte) :
    cString fileNameMaxLen (cString fileNameMaxLen name ++
      .replicate (fileNameMaxLen - (cString fileNameMaxLen name).length) 0) =
        cString fileNameMaxLen name := by
  -- A name that was cut fits its field.
  have short : (cString fileNameMaxLen name).length ≤ fileNameMaxLen :=
    ((List.takeWhile_prefix _).length_le.trans (List.length_take_le _ _))
  -- It has no zero in it.
  have kept : ∀ byte ∈ cString fileNameMaxLen name, decide (byte ≠ 0) = true := by
    intro byte member
    unfold cString at member
    have here := List.mem_takeWhile_imp member
    exact here
  -- No byte of the name is zero, and the first zero of the padding ends it.
  generalize cString fileNameMaxLen name = held at short kept
  rw [cString, List.take_of_length_le, List.takeWhile_append_of_pos kept]
  · -- The name fills the field, or the padding begins with a zero.
    cases fileNameMaxLen - held.length with
    | zero => simp
    | succ n => simp [List.replicate_succ]
  · rw [List.length_append, List.length_replicate]
    omega

/-- A name and a header sector go into an entry that is free. -/
theorem entered (table : dir.table.length = directoryFileSize) (small : InInt newSector)
    (name : List Byte) (inside : i < numDirEntries) (free : dir.inUse i = false) :
    Entered dir { dir.setInUse i true with
      table := splice 0 (splice 0 (dir.setInUse i true).table (sizeofDirectoryEntry * i + 8)
        (cString fileNameMaxLen name ++
          .replicate (fileNameMaxLen - (cString fileNameMaxLen name).length) 0))
        (sizeofDirectoryEntry * i + 4) (intBytes newSector) } i name newSector := by
  have few : i < 10 := inside
  -- Setting the flag leaves the table as long as it is.
  have flagged : (dir.setInUse i true).table.length = 200 := length_setInUse table inside true
  have short : (cString fileNameMaxLen name).length ≤ 9 :=
    ((List.takeWhile_prefix _).length_le.trans (List.length_take_le _ _))
  have padded := cString_padded name
  generalize patch : cString fileNameMaxLen name ++
    .replicate (fileNameMaxLen - (cString fileNameMaxLen name).length) 0 = bytes at padded ⊢
  -- The padded name fills its field.
  have nine : bytes.length = 9 := by
    rw [← patch, List.length_append, List.length_replicate]
    show _ + (9 - _) = 9
    omega
  have four := length_intBytes newSector
  simp only [sizeofDirectoryEntry]
  have named : (splice 0 (dir.setInUse i true).table (20 * i + 8) bytes).length = 200 := by
    rw [length_splice]
    omega
  refine ⟨inside, free, rfl, ?_, fun j => ?_, fun j => ?_, fun j => ?_⟩
  · -- The table is as long as before.
    show (splice _ _ _ _).length = 200
    rw [length_splice]
    omega
  · -- Neither patch covers a flag.
    have flag := inUse_setInUse dir i true j
    unfold Directory.inUse at flag ⊢
    simp only [sizeofDirectoryEntry] at flag ⊢
    rw [getD_splice, if_neg (by omega), getD_splice, if_neg (by omega), flag]
    by_cases same : j = i <;> simp [same]
  · -- The sector is written where the entry has it.
    unfold Directory.entrySector
    simp only [sizeofDirectoryEntry]
    by_cases same : j = i
    · subst same
      rw [if_pos rfl]
      refine intAt_of_bytes small ?_
      have covered := @take_drop_splice_same Byte 0 _ _ _
        (show 20 * j + 4 + (intBytes newSector).length ≤
          (splice 0 (dir.setInUse j true).table (20 * j + 8) bytes).length by omega)
      rwa [four] at covered
    · -- The sectors of the others are apart from both patches.
      have kept := entrySector_setInUse table inside true j
      unfold Directory.entrySector intAt wordAt at kept
      unfold intAt wordAt
      simp only [sizeofDirectoryEntry] at kept
      rw [if_neg same, take_drop_splice_apart (by omega) (by omega),
        take_drop_splice_apart (by omega) (by omega), kept]
  · -- The name is written behind it.
    unfold Directory.entryName
    simp only [sizeofDirectoryEntry]
    by_cases same : j = i
    · subst same
      have covered := @take_drop_splice_same Byte 0 _ _ _
        (show 20 * j + 8 + bytes.length ≤ (dir.setInUse j true).table.length by omega)
      rw [nine] at covered
      rw [if_pos rfl, ← padded]
      unfold cString
      simp only [fileNameMaxLen]
      rw [take_drop_splice_apart (by omega) (by omega), covered, List.take_of_length_le (by omega)]
    · -- So are their names.
      have kept := entryName_setInUse table inside true j
      unfold Directory.entryName cString at kept
      unfold cString
      simp only [sizeofDirectoryEntry, fileNameMaxLen] at kept ⊢
      rw [if_neg same, take_drop_splice_apart (by omega) (by omega),
        take_drop_splice_apart (by omega) (by omega), kept]

/-- `AddInCurrentDir` enters the name, unless it is there or there is no place for it. -/
theorem addInCurrentDir_cases (table : dir.table.length = directoryFileSize) (small : InInt newSector)
    (name : List Byte) :
    ((dir.findIndex name = none ∧ ∃ i, (∀ j < i, dir.inUse j = true) ∧
        ∃ dir', dir.addInCurrentDir name newSector = some dir' ∧ Entered dir dir' i name newSector) ∨
      (dir.addInCurrentDir name newSector = none ∧
        (dir.findIndex name ≠ none ∨ ∀ i < numDirEntries, dir.inUse i = true))) := by
  unfold addInCurrentDir
  -- A name that is there is refused before a free entry is looked for.
  cases found : dir.findIndex name with
  | some index => exact .inr ⟨by simp, .inl (by simp)⟩
  | none =>
    cases search : (List.range numDirEntries).find? fun i => !dir.inUse i with
    -- There is no entry that is free.
    | none =>
      refine .inr ⟨by simp, .inr fun i inside => ?_⟩
      have := List.find?_eq_none.mp search i (List.mem_range.mpr inside)
      simpa using this
    -- The first free entry takes the name.
    | some i =>
      obtain ⟨free, member, before⟩ := List.find?_range_eq_some.mp search
      exact .inl ⟨rfl, i, by simpa using before, _, by simp,
        entered table small name (by simpa using member) (by simpa using free)⟩

/-- Clearing some flags keeps the sector and the size of the table, and clears those flags. -/
theorem foldl_setInUse (indices : List Nat) :
    ∀ {dir : Directory}, dir.table.length = directoryFileSize →
      (∀ i ∈ indices, i < numDirEntries) →
      let cleared := indices.foldl (fun dir i => dir.setInUse i false) dir
      cleared.sector = dir.sector ∧ cleared.table.length = directoryFileSize ∧
        ∀ j, j ∈ indices ∨ dir.inUse j = false → cleared.inUse j = false := by
  -- By induction on the indices: a flag that is clear stays clear.
  induction indices with
  | nil => exact fun table _ => ⟨rfl, table, fun j clear => by simpa using clear⟩
  | cons i rest ih =>
    intro dir table inside
    obtain ⟨sector, table', clear⟩ := ih (length_setInUse table (inside i List.mem_cons_self) false)
      fun j member => inside j (List.mem_cons_of_mem _ member)
    refine ⟨sector, table', fun j either => clear j ?_⟩
    rw [inUse_setInUse]
    by_cases same : j = i
    · -- The flag of this entry has been cleared first.
      exact .inr (if_pos same)
    · rw [if_neg same]
      -- The others are cleared later, or are clear.
      rcases either with member | already
      · exact .inl ((List.mem_cons.mp member).resolve_left same)
      · exact .inr already

/-- A new directory has no entries in use. -/
theorem new_finds (disk : Disk) (sector : Int) :
    Fs.Finds disk (Directory.new sector) fun dir => dir.sector = sector ∧
      dir.table.length = directoryFileSize ∧ ∀ i < numDirEntries, dir.inUse i = false := by
  refine (Fs.Finds.allocate disk directoryFileSize).bind fun table long => ?_
  have cleared := @foldl_setInUse (List.range numDirEntries) ⟨sector, table⟩ long
    fun i => List.mem_range.mp
  exact Fs.Finds.pure disk ⟨cleared.1, cleared.2.1, fun i inside =>
    cleared.2.2 i (.inl (List.mem_range.mpr inside))⟩

/-- A directory that is to be read has the size of one. -/
theorem newEmpty_finds (disk : Disk) :
    Fs.Finds disk newEmpty fun dir => dir.table.length = directoryFileSize := by
  refine (Fs.Finds.allocate disk 4).bind fun leftover _ => ?_
  exact (new_finds disk _).mono fun _ _ found => ⟨found.1, found.2.2.1⟩

end Memory

section Paths

/-- What comes after the first component of a path is shorter. -/
theorem skipelem_shorter {path name rest : List Byte} (split : skipelem path = some (name, rest)) :
    rest.length < path.length := by
  unfold skipelem at split
  -- Slashes in front are skipped.
  have shorter := (List.dropWhile_suffix (l := path) fun c => decide (c = slash)).length_le
  have first := List.head?_dropWhile_not (fun c => decide (c = slash)) path
  generalize path.dropWhile (fun c => decide (c = slash)) = path' at split shorter first
  dsimp only at split
  split at split
  · -- Then the path is at its end, and has no component.
    cases split
  · rename_i notEnd
    cases split
    cases path' with
    -- What is left is not empty.
    | nil => exact absurd rfl notEnd
    | cons c tail =>
      -- The first character is one of the component.
      simp only [List.head?_cons, decide_eq_false_iff_not] at first
      simp only [List.headD_cons] at notEnd
      have counted : 0 < ((c :: tail).takeWhile fun c => decide (c ≠ slash ∧ c ≠ 0)).length := by
        rw [List.takeWhile_cons_of_pos (by simpa using ⟨first, notEnd⟩)]
        exact Nat.succ_pos _
      -- The slashes behind the component are skipped as well.
      have cut := (List.dropWhile_suffix (l := (c :: tail).drop
        ((c :: tail).takeWhile fun c => decide (c ≠ slash ∧ c ≠ 0)).length)
        fun c => decide (c = slash)).length_le
      rw [List.length_drop] at cut
      simp only [List.length_cons] at cut shorter ⊢
      omega

/-- A path that goes on after a component has another one. -/
theorem skipelem_more {path name rest : List Byte} (split : skipelem path = some (name, rest))
    (more : rest.headD 0 ≠ 0) : ∃ next after, skipelem rest = some (next, after) := by
  -- The slashes behind the component are gone, so that the rest starts with the next one.
  have stripped : rest.dropWhile (fun c => decide (c = slash)) = rest := by
    unfold skipelem at split
    dsimp only at split
    split at split
    · cases split
    · cases split
      exact List.dropWhile_idempotent _ _
  unfold skipelem
  rw [stripped]
  exact ⟨_, _, if_neg more⟩

end Paths

end Directory

end Nachos
