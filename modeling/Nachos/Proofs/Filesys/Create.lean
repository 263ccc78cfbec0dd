import Nachos.Proofs.Filesys.Paths

/-! Creating a file: what is written for it, and what `Create` can do on a sound disk. -/

namespace Nachos

namespace FileHeader

variable {disk after : Disk} {hdr : FileHeader} {sector : Int} {type : FileType} {freeMap : Bitmap}

/-- The header of a new file, which has no sectors. -/
structure Blank (hdr : FileHeader) (sector : Int) (type : FileType) : Prop where
  limit : hdr.limit = 0
  capacity : hdr.capacity = 0
  nsectors : hdr.nsectors = 0
  self : hdr.selfSector = sector
  type : hdr.type = type
  dataSector : ∀ i, hdr.dataSector i = 0

/-- The constructor makes the header of a new file. -/
theorem new_finds (disk : Disk) (sector : Int) (type : FileType) :
    Fs.Finds disk (FileHeader.new sector type) fun hdr => hdr.Blank sector type := by
  unfold FileHeader.new
  refine (Fs.Finds.totalTicks disk).bind fun createTime _ => ?_
  refine (Fs.Finds.allocate disk 4).bind fun leftover _ => ?_
  refine Fs.Finds.pure disk ⟨rfl, rfl, rfl, rfl, rfl, fun i => ?_⟩
  unfold dataSector
  dsimp only
  rw [Vector.toList_replicate, List.getD_eq_getElem?_getD, List.getElem?_replicate]
  split <;> rfl

namespace Blank

/-- A new file has no slots in use. -/
theorem slot (blank : hdr.Blank sector type) (disk : Disk) (j : Nat) : hdr.slot disk j = 0 := by
  unfold FileHeader.slot
  rw [blank.dataSector, blank.dataSector]
  split
  · rfl
  · exact if_neg (by simp)

/-- The header of a new file has no sectors, and none in its slots. -/
theorem mapped (blank : hdr.Blank sector type) (disk : Disk) : hdr.Mapped disk := by
  have count := blank.nsectors
  refine ⟨by rw [count]; decide, by rw [blank.capacity, count]; rfl, fun j => ?_,
    fun j used => absurd (blank.slot disk j) used⟩
  rw [blank.slot, count]
  exact ⟨fun wrong => absurd rfl wrong, fun below => absurd below (Nat.not_lt_zero _)⟩

/-- The header of a new file is laid out. -/
theorem laid (blank : hdr.Blank sector type) (disk : Disk) (onDisk : OnDisk sector) :
    hdr.Laid disk := by
  have mapped := blank.mapped disk
  refine ⟨mapped.counted, mapped.capacity, ?_, blank.self ▸ onDisk, mapped.used,
    fun j used => absurd (blank.slot disk j) used, fun i j used => absurd (blank.slot disk i) used⟩
  rw [blank.limit, blank.capacity]
  decide

end Blank

/-- The header of a new file that has got its first sectors, all of them direct. -/
structure Filled (disk : Disk) (hdr : FileHeader) (sector : Int) (type : FileType)
    (fresh : List Nat) : Prop where
  laid : hdr.Laid disk
  self : hdr.selfSector = sector
  type : hdr.type = type
  limit : hdr.limit = 0
  count : hdr.nsectors = fresh.length
  slots : ∀ j, hdr.slot disk j = (fresh.getD j 0 : Nat)

namespace Filled

variable {fresh : List Nat}

/-- There is no index sector. -/
theorem noIndex (filled : Filled disk hdr sector type fresh) (few : fresh.length ≤ numDirect) :
    hdr.dataSector numDirect = 0 := by
  rw [← slot_index disk, filled.slots, List.getD_eq_default _ _ few]
  rfl

/-- The slots are filled whatever is on the disk. -/
theorem congr (filled : Filled disk hdr sector type fresh) (few : fresh.length ≤ numDirect)
    (after : Disk) : Filled after hdr sector type fresh := by
  have none := filled.noIndex few
  exact ⟨filled.laid.congr rfl rfl rfl rfl filled.laid.limit fun there => absurd none there,
    filled.self, filled.type, filled.limit, filled.count, fun j =>
    (slot_congr rfl (fun there => absurd none there) j).trans (filled.slots j)⟩

/-- A sector of the file is one of those that it has got. -/
theorem block_mem (filled : Filled disk hdr sector type fresh) (few : fresh.length ≤ numDirect)
    {n : Nat} (counted : n < hdr.nsectors.toNat) : ∃ t ∈ fresh, hdr.block disk n = (t : Int) := by
  have inside : n < fresh.length := by
    rw [filled.count] at counted
    exact counted
  have direct : blockSlot n = n := if_pos (by omega)
  unfold block
  rw [direct, filled.slots, List.getD_eq_getElem?_getD, List.getElem?_eq_getElem inside,
    Option.getD_some]
  exact ⟨_, List.getElem_mem inside, rfl⟩

end Filled

/-- `Allocate` finds the first sectors of a new file, if no index sector is needed for them. -/
theorem Blank.allocate_yields (blank : hdr.Blank sector type) (onDisk : OnDisk sector)
    (ofDisk : freeMap.OfDisk) (taken : freeMap.bit sector.toNat = true) {size : Nat}
    (some : 0 < size) (few : divRoundUp size sectorSize ≤ numDirect)
    (enough : divRoundUp size sectorSize ≤ freeMap.numClear) :
    Fs.Yields disk (hdr.allocate freeMap size) fun given after => after = disk ∧
      ∃ hdr' freeMap' fresh, given = (true, hdr', freeMap') ∧ freeMap.Takes fresh freeMap' ∧
        fresh.length = divRoundUp size sectorSize ∧ Filled disk hdr' sector type fresh := by
  -- The header has no sectors yet, so as many are needed as are wanted.
  have laid := blank.laid disk onDisk
  have needed : hdr.neededSlots (divRoundUp size sectorSize) = divRoundUp size sectorSize := by
    unfold neededSlots
    rw [blank.nsectors, Int.toNat_zero, Nat.zero_add]
    unfold usedSlots
    rw [if_pos few, if_pos (Nat.zero_le _), Nat.sub_zero]
  -- At most the direct slots are needed, so that the file stays small enough.
  have small : (size : Int) + hdr.capacity ≤ maxFileSize := by
    rw [blank.capacity]
    unfold divRoundUp at few
    simp only [maxFileSize, numDirect, numInDirect, sectorSize] at *
    split at few <;> omega
  have positive : (0 : Int) < size := Int.natCast_pos.mpr some
  -- Allocate then finds them.
  have allocates := FileHeader.allocate_yields laid.mapped ofDisk positive small
    (by rw [Int.toNat_natCast, needed]; exact enough)
  rw [Int.toNat_natCast] at allocates
  refine allocates.mono ?_
  rintro _ middle ⟨hdr', freeMap', fresh, rfl, takes, long, extended⟩
  rw [needed] at long
  -- The slots are the sectors that were found.
  have grew := extended.grew
  have free : ∀ s ∈ fresh, 0 < s ∧ s < numSectors := fun s member =>
    ofDisk.free (takes.clear s member).1 (takes.clear s member).2
  have slots : ∀ j, hdr'.slot middle j = (fresh.getD j 0 : Nat) := by
    intro j
    have here := grew.slots j
    rwa [blank.nsectors] at here
  have count : hdr'.nsectors = fresh.length := by
    rw [grew.nsectors, blank.nsectors, long, Int.zero_add]
  have limit : hdr'.limit = 0 := by
    rw [extended.fields]
    exact blank.limit
  -- No index sector is made, and the disk stays as it was.
  have noIndex : hdr'.dataSector numDirect = 0 := by
    rw [← slot_index middle, slots, List.getD_eq_default _ _ (by rw [long]; exact few)]
    rfl
  have apart : ∀ s ∈ fresh, (s : Int) ≠ sector := by
    rintro s member rfl
    have clear := (takes.clear s member).2
    rw [Int.toNat_natCast, clear] at taken
    cases taken
  obtain rfl : middle = disk := funext fun s => extended.frame s (.inr noIndex)
  refine ⟨rfl, hdr', freeMap', fresh, rfl, takes, long, ?_, grew.selfSector.trans blank.self,
    grew.type.trans blank.type, limit, count, slots⟩
  -- The header is laid out with them.
  refine grew.laid laid ?_ (by rw [needed, long]) takes.nodup free
    (fun s member => ⟨?_, fun j => ?_⟩) ⟨by omega, ?_⟩
  · -- They fit the header.
    rw [blank.nsectors, Int.toNat_zero, Nat.zero_add]
    omega
  · -- None of them is the header's own.
    rw [blank.self]
    exact apart s member
  · -- None of them is in the header already.
    rw [blank.slot]
    have := (free s member).1
    omega
  · -- The limit is 0.
    rw [limit, grew.capacity, count]
    simp only [sectorSize]
    omega

end FileHeader

/-- A header on the disk that has just been made, with the sectors that were found for it. -/
structure NewHeader (disk : Disk) (sector : Int) (kind : FileType) (fresh : List Nat) : Prop where
  laid : (headerAt disk sector).Laid disk
  self : (headerAt disk sector).selfSector = sector
  type : (headerAt disk sector).type = kind
  slots : ∀ j, (headerAt disk sector).slot disk j = (fresh.getD j 0 : Nat)
  -- An ordinary file has nothing in it, and a directory has no entries.
  file : kind = .file → (headerAt disk sector).limit = 0 ∧ (headerAt disk sector).nsectors = 0 ∧
    fresh = []
  dir : kind = .dir → DirectoryFile disk sector ∧
    ∀ i < numDirEntries, (dirAt disk sector).inUse i = false

/-- A new header stays one as long as it and its sectors are kept. -/
theorem NewHeader.congr {disk after : Disk} {sector : Int} {kind : FileType} {fresh : List Nat}
    (new : NewHeader disk sector kind fresh) (self : after sector = disk sector)
    (kept : ∀ s ∈ fresh, after (s : Int) = disk s) : NewHeader after sector kind fresh := by
  have untouched : Untouched disk after sector := by
    refine ⟨self, fun j there => ?_⟩
    -- A slot past the sectors that were found for the file is empty.
    rw [new.slots] at there ⊢
    by_cases inside : j < fresh.length
    · rw [List.getD_eq_getElem?_getD, List.getElem?_eq_getElem inside, Option.getD_some]
      exact kept _ (List.getElem_mem inside)
    · rw [List.getD_eq_default _ _ (by omega)] at there
      exact absurd rfl there
  -- So the header is the same, and with it each clause.
  obtain ⟨header, slots⟩ := untouched.header
  refine ⟨untouched.laid new.laid, ?_, ?_, fun j => (slots j).trans (new.slots j), ?_,
    fun isDir => untouched.emptyDirectory new.laid (new.dir isDir)⟩
  · rw [header]
    exact new.self
  · rw [header]
    exact new.type
  · rw [header]
    exact new.file

namespace FileSystem

variable {disk after : Disk} {hdr : FileHeader} {sector : Nat} {freeMap : Bitmap}

/-- The header of an ordinary file is all that is written for it. -/
theorem setUp_file (blank : hdr.Blank sector .file) (onDisk : OnDisk sector) :
    Fs.Yields disk (setUp hdr freeMap sector .file) fun given after =>
      given = (true, freeMap) ∧ NewHeader after sector .file [] ∧
        ∀ s, s ≠ (sector : Int) → after s = disk s := by
  unfold setUp FileHeader.writeBack
  -- The header is stored, and read back as it is.
  refine Fs.writeSector_bind onDisk (Program.Yields.pure ⟨rfl, ?_, fun s other =>
    Function.update_of_ne other _ _⟩)
  generalize changed : Function.update disk (sector : Int) hdr.toSector = after
  have header : headerAt after sector = hdr := by
    unfold headerAt
    rw [← changed, Function.update_self]
    exact FileHeader.ofSector_toSector (blank.laid disk onDisk).small
  -- Each clause is that of a blank header.
  refine ⟨?_, ?_, ?_, fun j => ?_, fun _ => ?_, (nomatch ·)⟩
  · rw [header]
    exact blank.laid after onDisk
  · rw [header]
    exact blank.self
  · rw [header]
    exact blank.type
  · rw [header, blank.slot]
    rfl
  · rw [header]
    exact ⟨blank.limit, blank.nsectors, rfl⟩

/-- A header that has been written with a table is that of a new directory. -/
theorem newHeader_of_wroteBack {middle : Disk} {sector : Int} {dir : Directory}
    {fresh : List Nat}
    (filled : hdr.Filled middle sector .dir fresh) (two : fresh.length = 2)
    (wrote : Directory.WroteBack middle after dir hdr) (named : dir.sector = sector)
    (table : dir.table.length = directoryFileSize)
    (clear : ∀ i < numDirEntries, dir.inUse i = false) : NewHeader after sector .dir fresh := by
  -- The limit of the directory is within its two sectors.
  have laid := filled.laid
  have noIndex := filled.noIndex (by rw [two]; decide)
  have room : (0 : Int) ≤ directoryLimit ∧ (directoryLimit : Int) ≤ hdr.capacity := by
    rw [laid.capacity, filled.count, two]
    decide
  have laid' : FileHeader.Laid after { hdr with limit := directoryLimit } :=
    laid.congr rfl rfl rfl rfl room fun there => absurd noIndex there
  -- Writing the table back has set the limit, and changed nothing else of the header.
  have header := wrote.headerAt_eq laid room.2 filled.self
  have onDisk : OnDisk dir.sector := by
    rw [named, ← filled.self]
    exact laid.self
  have same : dirAt after sector = dir := wrote.dirAt_eq header table onDisk
  -- Each clause, with the header as it is stored.
  refine ⟨header ▸ laid', ?_, ?_, fun j => ?_, (nomatch ·), fun _ => ⟨⟨?_, ?_, ?_, ?_⟩, ?_⟩⟩
  · rw [header]
    exact filled.self
  · rw [header]
    exact filled.type
  · rw [header, ← filled.slots]
    exact FileHeader.slot_congr rfl (fun there => absurd noIndex there) j
  · rw [header]
    exact filled.type
  · rw [header]
  · rw [header]
    exact filled.count.trans (congrArg Nat.cast two)
  · -- The table is the one that was written.
    rw [same, named]
  · rw [same]
    exact clear

/-- A directory gets two sectors, and its table is written to them. -/
theorem setUp_dir (blank : hdr.Blank sector .dir) (onDisk : OnDisk sector) (ofDisk : freeMap.OfDisk)
    (taken : freeMap.bit sector = true) (enough : 2 ≤ freeMap.numClear) :
    Fs.Yields disk (setUp hdr freeMap sector .dir) fun given after => ∃ freeMap' fresh,
      given = (true, freeMap') ∧ freeMap.Takes fresh freeMap' ∧ NewHeader after sector .dir fresh ∧
        ∀ s, s ≠ (sector : Int) → (∀ t ∈ fresh, s ≠ (t : Int)) → after s = disk s := by
  -- The directory's table takes two sectors.
  have wanted : divRoundUp directoryFileSize sectorSize = 2 := by decide
  unfold setUp
  refine Program.Yields.bind (blank.allocate_yields onDisk ofDisk taken (by decide) (by decide)
    (by rw [wanted]; exact enough)) ?_
  rintro _ middle ⟨rfl, hdr', freeMap', fresh, rfl, takes, long, filled⟩
  rw [wanted] at long
  have few : fresh.length ≤ numDirect := by rw [long]; decide
  -- The header is stored.
  refine Fs.writeSector_bind onDisk ?_
  have stored := Function.update_self (sector : Int) hdr'.toSector middle
  have kept : ∀ s, s ≠ (sector : Int) →
      Function.update middle (sector : Int) hdr'.toSector s = middle s :=
    fun s other => Function.update_of_ne other _ _
  generalize Function.update middle (sector : Int) hdr'.toSector = named at stored kept ⊢
  have header : headerAt named sector = hdr' := by
    unfold headerAt
    rw [stored]
    exact FileHeader.ofSector_toSector filled.laid.small
  have moved := filled.congr few named
  have room : (directoryLimit : Int) ≤ hdr'.capacity := by
    rw [filled.laid.capacity, filled.count, long]
    decide
  -- A new table is written to the two sectors.
  refine (Directory.new_finds named sector).bind ?_
  rintro dir ⟨own, table, clear⟩
  refine (OpenFile.new_reads onDisk).bind ?_
  rw [header]
  refine Program.Yields.bind (Directory.writeBack_yields moved.laid room table) ?_
  rintro _ after ⟨-, wrote⟩
  refine Program.Yields.pure ⟨freeMap', fresh, rfl, takes,
    newHeader_of_wroteBack moved long wrote own table clear, fun s other outside => ?_⟩
  -- Nothing else is written.
  rw [wrote.frame s (by rw [filled.self]; exact other), kept s other]
  intro n counted
  -- The two sectors of the directory are those that were found.
  obtain ⟨t, member, same⟩ := moved.block_mem few counted
  rw [same]
  exact outside t member

/-- A new file is set up: an ordinary one, or a directory if there are two sectors for it. -/
theorem setUp_yields {kind : FileType} (blank : hdr.Blank sector kind) (onDisk : OnDisk sector)
    (ofDisk : freeMap.OfDisk) (taken : freeMap.bit sector = true)
    (kinds : kind = .file ∨ kind = .dir ∧ 2 ≤ freeMap.numClear) :
    Fs.Yields disk (setUp hdr freeMap sector kind) fun given after => ∃ freeMap' fresh,
      given = (true, freeMap') ∧ freeMap.Takes fresh freeMap' ∧
        NewHeader after sector kind fresh ∧
        ∀ s, s ≠ (sector : Int) → (∀ t ∈ fresh, s ≠ (t : Int)) → after s = disk s := by
  rcases kinds with rfl | ⟨rfl, enough⟩
  · refine (setUp_file blank onDisk).mono ?_
    rintro _ after ⟨rfl, new, frame⟩
    exact ⟨freeMap, [], rfl, .nil _, new, fun s other _ => frame s other⟩
  · exact setUp_dir blank onDisk ofDisk taken enough

variable {fs : FileSystem} {path last : List Byte} {parent : Int} {i : Nat} {kind : FileType}
  {dir : Directory} {fresh : List Nat}

/-- What is left when a file has been created. -/
structure Created (disk after : Disk) (parent : Int) (last : List Byte) (i sector : Nat)
    (kind : FileType) (fresh : List Nat) : Prop where
  takes : (freeMapOn disk).Takes (sector :: fresh) (freeMapOn after)
  entered : Directory.Entered (dirAt disk parent) (dirAt after parent) i last sector
  new : NewHeader after sector kind fresh
  keepsMap : mapHeader after = mapHeader disk
  frame : ∀ s, s ≠ (mapHeader disk).dataSector 0 →
    (∀ n < 2, s ≠ (headerAt disk parent).slot disk n) → s ≠ (sector : Int) →
    (∀ t ∈ fresh, s ≠ (t : Int)) → after s = disk s

/-- Once the name is in its directory, the file is made and its sectors are marked. -/
theorem createHeader_yields {middle : Disk} (sound : Sound disk) (mounted : fs.Mounted disk)
    (found : IsDirectory disk parent) (changed : Directory.Changed disk middle parent dir)
    (entered : Directory.Entered (dirAt disk parent) dir i last sector)
    (takes : (freeMapOn disk).Takes [sector] freeMap)
    (kinds : kind = .file ∨ kind = .dir ∧ 2 ≤ freeMap.numClear) :
    Fs.Yields middle (fs.createHeader freeMap sector kind) fun given after =>
      given = (true, fs) ∧ ∃ fresh, Created disk after parent last i sector kind fresh := by
  -- The sector of the header was free, and is taken now.
  have clear := takes.clear sector List.mem_cons_self
  have free := sound.ofDisk.free clear.1 clear.2
  have onDisk : OnDisk sector := ⟨by omega, by exact_mod_cast free.2⟩
  have taken : freeMap.bit sector = true := by
    rw [takes.bit, decide_eq_true List.mem_cons_self, Bool.true_or]
  -- The sectors of the map are marked.
  have isHeader := isHeader_of_directory found
  have map : IsHeader disk freeMapSector := .fixed .freeMap
  obtain ⟨slot, used⟩ := sound.slot_map
  have mapMarked : Marked disk ((mapHeader disk).dataSector 0) := by
    rw [← slot]
    exact (sound.slot_marked map used).2
  -- The header is made, and what the file needs is set up.
  unfold createHeader
  refine (FileHeader.new_finds middle sector kind).bind fun hdr blank => ?_
  refine (setUp_yields blank onDisk (takes.ofDisk sound.ofDisk) taken kinds).bind ?_
  rintro _ late ⟨freeMap', fresh, rfl, takes', new, frame⟩
  have both : (freeMapOn disk).Takes (sector :: fresh) freeMap' := takes.append takes'
  have apart : ∀ t ∈ sector :: fresh, ∀ {s}, Marked disk s → (t : Int) ≠ s :=
    fun t member _ marked => OpenFile.fresh_unmarked both member marked
  -- What is marked before is left alone from now on, apart from the map.
  have kept : ∀ {s}, Marked disk s → late s = middle s := fun marked =>
    frame _ (apart sector List.mem_cons_self marked).symm fun t member =>
      (apart t (List.mem_cons_of_mem _ member) marked).symm
  -- So the map's own header is as it was, and the map can be written back.
  have first : late freeMapSector = disk freeMapSector :=
    (kept (sound.header_marked map).2).trans (changed.header sound.tree found map)
  have sameMap : mapHeader late = mapHeader disk := congrArg FileHeader.ofSector first
  have mapFile : MapFile late (mapHeader late) := sameMap ▸ sound.map.congr
  refine (PersistentBitmap.writeBack_yields mapFile (mounted.freeMap.trans sameMap.symm)
    both.numBits).bind ?_
  rintro _ after ⟨rfl, stored⟩
  have storedKept := stored.kept
  rw [sameMap] at storedKept
  refine Program.Yields.pure ⟨rfl, fresh, ?_, ?_, ?_, (stored.mapHeader mapFile).trans sameMap,
    fun s notMap notDir notSelf notFresh => ?_⟩
  · -- The map has both the header and the sectors of the file marked.
    rw [stored.map]
    exact both
  · -- The parent has the table with the new name.
    have header : middle parent = disk parent := changed.header sound.tree found isHeader
    have headers : headerAt middle parent = headerAt disk parent :=
      congrArg FileHeader.ofSector header
    have block : ∀ n < 2, after ((headerAt disk parent).slot disk n) =
        middle ((headerAt disk parent).slot disk n) := by
      intro n inside
      have there := (sound.tree.directory_block found inside).2
      rw [storedKept _ ?_, kept (sound.slot_marked isHeader there).2]
      rw [← slot]
      intro same
      exact sound.tree.directory_ne_map found (sound.tree.slot_inj isHeader map there same).1
    -- Its header and its two sectors have not been written since.
    have same : dirAt after parent = dir := by
      rw [← changed.dir]
      refine dirAt_congr ?_ fun n inside => ?_
      · rw [storedKept _ ?_, kept (sound.header_marked isHeader).2]
        rw [← slot]
        exact (sound.tree.header_ne_slot isHeader map used).symm
      · have direct : n ≤ numDirect := show n ≤ 24 by omega
        have here := block n inside
        rw [FileHeader.slot_direct _ _ direct] at here
        rw [headers, FileHeader.slot_direct _ _ direct]
        exact here
    rw [same]
    exact entered
  · -- The header of the new file is as it was made.
    refine new.congr ?_ fun t member => ?_
    · exact storedKept _ (apart sector List.mem_cons_self mapMarked)
    · exact storedKept _ (apart t (List.mem_cons_of_mem _ member) mapMarked)
  · -- Nothing else has been written.
    rw [storedKept s notMap, frame s notSelf notFresh, changed.kept s notDir]

end FileSystem

/-- A path leads to a new name, in a directory with a place for it, and a sector is free. -/
structure Creatable (disk : Disk) (path : List Byte) (parent : Int) (last : List Byte) : Prop where
  leads : Leads disk directorySector path parent last
  absent : (dirAt disk parent).findIndex last = none
  room : ∃ i < numDirEntries, (dirAt disk parent).inUse i = false
  free : 0 < (freeMapOn disk).numClear

/-- The sectors for a new file of this kind are there, as long as there is one for its header. -/
def Provided (disk : Disk) (kind : FileType) : Prop :=
  kind = .file ∨ kind = .dir ∧ 3 ≤ (freeMapOn disk).numClear

namespace FileSystem

variable {disk : Disk} {fs : FileSystem} {path last : List Byte} {parent : Int} {kind : FileType}

/-- Nothing is created under a name that is not there and cannot be added. -/
theorem create_unadded (sound : Sound disk) (mounted : fs.Mounted disk)
    (absent : Fs.Reads disk ((dirAt disk directorySector).find path) (-1))
    (refused : ∀ newSector, OnDisk newSector → 0 < (freeMapOn disk).numClear →
      Fs.Reads disk ((dirAt disk directorySector).add path newSector) false) :
    Fs.Reads disk (fs.create path kind) (false, fs) := by
  -- The name is looked up, and the map is read.
  unfold create
  refine (rootDirectory_reads sound.readable mounted).bind (absent.bind ?_)
  rw [if_neg (not_not_intro rfl)]
  refine (PersistentBitmap.ofFile_reads sound.map mounted.freeMap).bind ?_
  -- No sector is free, or one is found and the name cannot be added.
  rcases Nat.eq_zero_or_pos (freeMapOn disk).numClear with full | free
  · refine (Fs.Reads.ofOption disk (Bitmap.findAndSet_full full)).bind ?_
    dsimp only
    rw [if_pos rfl]
    exact Fs.Reads.pure disk _
  -- The sector that was found is not marked on the disk, since the map is not written.
  · obtain ⟨sector, found, takes⟩ := Bitmap.findAndSet_takes _ free
    have clear := takes.clear sector List.mem_cons_self
    have inRange := sound.ofDisk.free clear.1 clear.2
    refine (Fs.Reads.ofOption disk found).bind ?_
    dsimp only
    rw [if_neg (by omega)]
    refine (refused sector ⟨by omega, by exact_mod_cast inRange.2⟩ free).bind ?_
    exact Fs.Reads.pure disk _

/-- A file that cannot be created leaves everything as it is. -/
theorem create_refused (sound : Sound disk) (mounted : fs.Mounted disk)
    (component : (Directory.skipelem path).isSome = true)
    (refused : ∀ parent last, ¬ Creatable disk path parent last) :
    Fs.Reads disk (fs.create path kind) (false, fs) := by
  -- The path leads to a parent, or nowhere.
  rcases Directory.namex_reads sound.readable component with ⟨parent, last, leads, -⟩ | ⟨nowhere, -⟩
  swap
  · exact create_unadded sound mounted (Directory.find_nowhere sound.readable component nowhere)
      fun _ _ _ => Directory.changeParent_nowhere sound.readable component nowhere
  have reads := Directory.find_leads sound.readable leads
  -- In the parent the name is absent or there.
  rcases sound.readable.dirlookup_cases (leads.isDirectory .root) last with ⟨absent, none⟩ | ⟨-, -, there⟩
  · -- The name is absent, and cannot be entered.
    rw [none] at reads
    refine create_unadded sound mounted reads fun newSector onDisk free => ?_
    refine Directory.changeParent_none sound.readable leads ?_
    have small := inInt_of_onDisk onDisk
    rcases Directory.addInCurrentDir_cases (Directory.length_table_dirAt disk parent) small last with
      ⟨-, i, -, dir, -, entered⟩ | ⟨none, -⟩
    · exact absurd ⟨leads, absent, ⟨i, entered.inside, entered.free⟩, free⟩ (refused parent last)
    · exact none
  · -- The name is there already.
    unfold create
    refine (rootDirectory_reads sound.readable mounted).bind (reads.bind ?_)
    rw [if_pos there]
    exact Fs.Reads.pure disk _

/-- `Create` adds the name to its directory, and goes on with the header of the new file. -/
theorem create_goesOn (sound : Sound disk) (mounted : fs.Mounted disk)
    (creatable : Creatable disk path parent last) (kind : FileType) :
    ∃ i sector freeMap dir, (freeMapOn disk).Takes [sector] freeMap ∧
      Directory.Entered (dirAt disk parent) dir i last (sector : Nat) ∧
      Fs.GoesOn disk (fs.create path kind) (fs.createHeader freeMap (sector : Nat) kind) fun middle =>
        Directory.Changed disk middle parent dir := by
  -- There is a place in the parent, and a free sector.
  obtain ⟨leads, absent, ⟨j, inside, free⟩, positive⟩ := creatable
  have found := leads.isDirectory .root
  obtain ⟨sector, search, takes⟩ := Bitmap.findAndSet_takes _ positive
  have clear := takes.clear sector List.mem_cons_self
  have inRange := sound.ofDisk.free clear.1 clear.2
  have small : InInt (sector : Int) := FileHeader.inInt_sector inRange.2
  have finds : Fs.Reads disk ((dirAt disk directorySector).find path) (-1) := by
    have reads := Directory.find_leads sound.readable leads
    unfold Directory.dirlookup at reads
    rwa [absent] at reads
  -- The name is new and there is a place for it, so it is entered.
  rcases Directory.addInCurrentDir_cases (Directory.length_table_dirAt disk parent) small last with
    ⟨-, i, -, dir, adds, entered⟩ | ⟨-, there | full⟩
  · have same : dir.sector = parent := entered.sector.trans (sound.directory parent found).self
    refine ⟨i, sector, _, dir, takes, entered, ?_⟩
    -- The steps of Create up to the header.
    unfold create
    refine .of_reads (rootDirectory_reads sound.readable mounted) (.of_reads finds ?_)
    rw [if_neg (not_not_intro rfl)]
    refine .of_reads (PersistentBitmap.ofFile_reads sound.map mounted.freeMap)
      (.of_reads (Fs.Reads.ofOption disk search) ?_)
    dsimp only
    rw [if_neg (by omega)]
    exact .of_yields (Directory.changeParent_yields sound.tree leads adds entered.table same) _
  · -- The name is not there, by the hypothesis.
    exact absurd absent there
  · -- The table is not full either.
    rw [full j inside] at free
    cases free

/-- A file that can be created, with sectors enough for its kind, is created. -/
theorem create_yields (sound : Sound disk) (mounted : fs.Mounted disk)
    (creatable : Creatable disk path parent last) (provided : Provided disk kind) :
    Fs.Yields disk (fs.create path kind) fun given after => given = (true, fs) ∧
      ∃ i sector fresh, Created disk after parent last i sector kind fresh := by
  -- The name is entered first, and the rest follows.
  obtain ⟨i, sector, freeMap, dir, takes, entered, goesOn⟩ :=
    create_goesOn sound mounted creatable kind
  refine goesOn.yields fun middle changed => ?_
  -- One sector has been taken for the header, so a directory still has two.
  have kinds : kind = .file ∨ kind = .dir ∧ 2 ≤ freeMap.numClear := by
    have one := takes.numClear
    rw [List.length_singleton] at one
    exact provided.imp id fun both => ⟨both.1, by omega⟩
  refine (createHeader_yields sound mounted (creatable.leads.isDirectory .root) changed entered takes
    kinds).mono ?_
  rintro _ after ⟨same, fresh, created⟩
  exact ⟨same, i, sector, fresh, created⟩

/-- A directory that finds its sectors too late is not reported as created. -/
theorem create_short (sound : Sound disk) (mounted : fs.Mounted disk)
    (creatable : Creatable disk path parent last) (short : (freeMapOn disk).numClear ≤ 2) :
    Fs.Gives disk (fs.create path .dir) fun given => given.1 = false := by
  -- The name is entered first.
  obtain ⟨i, sector, freeMap, dir, takes, entered, goesOn⟩ :=
    create_goesOn sound mounted creatable .dir
  have one := takes.numClear
  rw [List.length_singleton] at one
  refine goesOn.gives fun middle changed => ?_
  unfold createHeader
  refine .bind (FileHeader.new_finds middle sector .dir) ?_
  rintro hdr middle ⟨rfl, blank⟩
  -- What is done after the sectors were not found does not change the result.
  have allocates : Fs.Reads middle (hdr.allocate freeMap directoryFileSize) (false, hdr, freeMap) := by
    refine FileHeader.allocate_short (by decide) (by rw [blank.capacity]; decide)
      (by rw [blank.capacity]) ?_
    show freeMap.numClear < 2
    omega
  -- So setting up the directory fails.
  have failed : Fs.Gives middle (setUp hdr freeMap sector .dir) fun given => given.1 = false := by
    unfold setUp
    refine .bind allocates ?_
    rintro _ _ ⟨rfl, rfl⟩
    refine .of_returns ?_ _
    refine .bind fun _ => .bind fun _ => .bind fun _ => .bind fun _ => ?_
    exact rfl
  -- The map is written back all the same, and false is returned.
  intro world seen value final ran
  rw [Program.run_bind] at ran
  obtain ⟨⟨given, between⟩, first, later⟩ := Option.bind_eq_some_iff.mp ran
  have result := failed world seen given between first
  obtain ⟨success, freeMap'⟩ := given
  have returns : Program.Returns (fun given => given.1 = false) (do
      let freeMapFile ← PersistentBitmap.writeBack freeMap' fs.freeMapFile
      return (success, { fs with freeMapFile }) : Fs (Bool × FileSystem)) :=
    .bind fun _ => result
  exact returns.holds later

end FileSystem

end Nachos
