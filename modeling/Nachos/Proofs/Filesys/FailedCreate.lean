import Nachos.Proofs.Filesys.Careful

/-! Creating files that cannot be created: when everything is left as it is, and when it is not. -/

namespace Nachos

/-- `Create` ends, and a failure leaves the disk as it was. -/
def FileSystem.CreateFailsCleanly (disk : Disk) (fs : FileSystem) (path : List Byte)
    (kind : FileType) : Prop :=
  Fs.Yields disk (fs.create path kind) fun given after => given.1 = false → after = disk

variable {disk after : Disk} {fs : FileSystem} {path last : List Byte} {parent : Int}
  {kind : FileType}

/-- `Create` fails cleanly unless a new directory would be made of the last two sectors. -/
theorem FileSystem.create_refusesCleanly (sound : Sound disk) (mounted : fs.Mounted disk)
    (component : (Directory.skipelem path).isSome = true) (kinds : kind = .file ∨ kind = .dir)
    (enough : ¬ Session.Tight disk path kind) : fs.CreateFailsCleanly disk path kind := by
  unfold CreateFailsCleanly
  by_cases creatable : ∃ parent last, Creatable disk path parent last
  · obtain ⟨parent, last, able⟩ := creatable
    have provided := Session.provided_of_enough kinds able enough
    -- What can be created is created.
    refine (create_yields sound mounted able provided).mono ?_
    rintro _ after ⟨rfl, -⟩ failed
    cases failed
  · -- What cannot be created is refused, and the disk is as it was.
    have refused : ∀ parent last, ¬ Creatable disk path parent last :=
      fun parent last able => creatable ⟨parent, last, able⟩
    refine (create_refused sound mounted component refused).mono ?_
    rintro _ after ⟨-, same⟩ -
    exact same

/--
In every state of a careful run, a `Create` fails cleanly unless it would make a directory of the
last two sectors.
-/
theorem create_failsCleanly {world : World} {started session : Session} {calls : List Call}
    (formats : Session.format world = some started)
    (careful : EveryStep Session.step (fun session call => call.Careful session) started calls)
    (ran : replay Session.step started calls = some session)
    (component : (Directory.skipelem path).isSome = true)
    (kinds : kind = .file ∨ kind = .dir) (enough : ¬ Session.Tight session.disk path kind) :
    session.fs.CreateFailsCleanly session.disk path kind := by
  have inOrder := Session.InOrder.run formats careful ran
  exact FileSystem.create_refusesCleanly inOrder.sound inOrder.mounted component kinds enough

section Short

/-- The part of `WriteAt` for a few bytes at the start of a file writes to two sectors at most. -/
theorem OpenFile.asks_storeAt (file : OpenFile) {source : List Byte} (some : 0 < source.length)
    (few : source.length ≤ sectorSize) :
    Program.Asks (KernelRequest.WritesIn fun s => s = file.hdr.selfSector ∨ s = file.hdr.dataSector 0)
      (file.storeAt source 0) := by
  simp only [sectorSize] at few
  have reads : ∀ {needed : Prop} [Decidable needed] {buf : List Byte} {place sector : Nat},
      Program.Asks (KernelRequest.WritesIn fun s =>
        s = file.hdr.selfSector ∨ s = file.hdr.dataSector 0)
        (file.readBack needed buf place sector) := by
    intro needed _ buf place sector
    unfold readBack
    split
    · exact ((asks_readAt file _ _).mono Fs.harmless_writesIn).bind fun _ => trivial
    · exact trivial
  -- A sector's worth of bytes at the start lies within the first sector.
  have one : 1 + (0 + source.length - 1) / sectorSize - 0 / sectorSize = 1 := by
    simp only [sectorSize]
    omega
  -- The header is written first, to its own sector.
  unfold storeAt FileHeader.writeBack
  refine Program.Asks.bind ⟨.inl rfl, fun _ => trivial⟩ fun _ => ?_
  unfold mergeAt
  dsimp only
  rw [one]
  refine Program.Asks.bind ⟨trivial, fun _ => trivial⟩ fun buf => ?_
  -- The sectors at the edges are only read.
  refine reads.bind fun buf => reads.bind fun buf => ?_
  -- There is one sector to write, which is the first of the file.
  unfold writeSectors FileHeader.byteToSector
  rw [show 0 / sectorSize * sectorSize / sectorSize = 0 by decide]
  dsimp only
  rw [if_pos (by decide)]
  by_cases positive : file.hdr.dataSector 0 > 0
  · -- The file has that sector, and it is the other place that is written.
    rw [decide_eq_true positive]
    exact ⟨.inr rfl, fun _ => trivial⟩
  · -- A file without sectors has nothing to write.
    rw [decide_eq_false positive]
    exact trivial

/-- If the first few bytes of a new file are written, it has got a sector and the map is kept. -/
theorem OpenFile.writeAt_start {file : OpenFile} (growable : Growable disk file.hdr)
    (empty : file.hdr.limit = 0 ∧ file.hdr.capacity = 0 ∧ file.hdr.nsectors = 0)
    {source : List Byte} (some : 0 < source.length) (few : source.length ≤ sectorSize)
    (enough : 0 < (freeMapOn disk).numClear) {world final : World} (seen : world.disk = disk)
    {given : Int × OpenFile}
    (ran : (file.writeAt source 0).run World.serve world = .some (given, final)) :
    ∃ hdr' middle fresh, Enlarged disk middle file.hdr hdr' source.length fresh ∧
      given.2.hdr = { hdr' with limit := source.length } ∧
      ∀ s, s ≠ hdr'.selfSector → s ≠ hdr'.dataSector 0 → final.disk s = middle s := by
  obtain ⟨limit, capacity, nsectors⟩ := empty
  simp only [sectorSize] at few
  -- The empty file wants its first sector.
  have wanted : wantedFor file.hdr source.length = 1 := by
    unfold wantedFor divRoundUp
    rw [capacity]
    simp only [sectorSize]
    split <;> omega
  -- That one is not reached through an index.
  have needed : file.hdr.neededSlots 1 = 1 := by
    unfold FileHeader.neededSlots
    rw [nsectors]
    rfl
  unfold writeAt writeAtNested at ran
  -- The size is compared before anything is written.
  rw [if_neg (by omega), Program.run_bind] at ran
  obtain ⟨⟨past, between⟩, sums, ran⟩ := Option.bind_eq_some_iff.mp ran
  obtain ⟨rfl, same⟩ := (intSum_reads disk (by omega) (by omega)).holds seen sums
  dsimp only at ran
  rw [Int.zero_add, Program.run_bind] at ran
  obtain ⟨⟨hdr', middle⟩, enlarges, ran⟩ := Option.bind_eq_some_iff.mp ran
  -- The map is enlarged, as there is a sector for it.
  have large : source.length ≤ maxFileSize := by
    simp only [maxFileSize, numDirect, numInDirect, sectorSize]
    omega
  have grows := enlarge_grows 0 growable (by omega) large (by rw [wanted, needed]; exact enough)
  obtain ⟨fresh, enlarged⟩ := grows.holds same enlarges
  -- The limit is what the few bytes make of it.
  have limited : hdr'.setFileLimit source.length = { hdr' with limit := (source.length : Int) } := by
    unfold FileHeader.setFileLimit
    rw [if_neg]
    have room := enlarged.grew.capacity
    rw [enlarged.grew.nsectors, nsectors, wanted] at room
    simp only [sectorSize] at room
    omega
  dsimp only at ran
  rw [limited] at ran
  -- The rest writes to the header and to the first sector of the file.
  obtain ⟨⟨_, late⟩, stores, ran⟩ := Option.bind_eq_some_iff.mp ((Program.run_bind ..).symm.trans ran)
  cases ran
  exact ⟨hdr', middle.disk, fresh, enlarged, rfl, fun s notSelf notFirst =>
    Fs.sector_kept (asks_storeAt _ some few) stores fun either => either.elim notSelf notFirst⟩

/-- The table of a new directory cannot be written when only one sector is free. -/
theorem Directory.writeBack_refuses {hdr : FileHeader} {position : Int}
    (growable : Growable disk hdr)
    (empty : hdr.limit = 0 ∧ hdr.capacity = 0 ∧ hdr.nsectors = 0)
    (apart : hdr.selfSector ≠ freeMapSector ∧ hdr.selfSector ≠ (mapHeader disk).dataSector 0)
    (one : (freeMapOn disk).numClear = 1) {dir : Directory}
    (table : dir.table.length = directoryFileSize) :
    Fs.Refuses disk (dir.writeBack ⟨hdr, position⟩) := by
  intro world seen
  unfold Directory.writeBack
  rw [Program.run_bind]
  -- The write of the sector number stops the kernel already, or it gives a file.
  cases ran : (OpenFile.writeAt ⟨hdr, position⟩ (intBytes dir.sector) 0).run World.serve world with
  | none => rfl
  | some ended =>
  obtain ⟨given, final⟩ := ended
  have length : (intBytes dir.sector).length = 4 := rfl
  obtain ⟨hdr', middle, fresh, enlarged, header, kept⟩ := OpenFile.writeAt_start growable empty
    (by rw [length]; decide) (by rw [length]; decide) (by rw [one]; decide) seen ran
  dsimp only at enlarged
  -- The number needs one sector.
  have wanted : OpenFile.wantedFor hdr (intBytes dir.sector).length = 1 := by
    unfold OpenFile.wantedFor
    rw [empty.2.1, length]
    rfl
  have needed : hdr.neededSlots 1 = 1 := by
    unfold FileHeader.neededSlots
    rw [empty.2.2]
    rfl
  have long := enlarged.long
  rw [wanted, needed] at long
  have grew := enlarged.grew
  -- The one sector that was free is taken, and the map is kept from there.
  have full := enlarged.takes.numClear
  rw [one, long] at full
  -- It has become the first sector of the file.
  have first : ∃ t ∈ fresh, hdr'.dataSector 0 = (t : Int) := by
    have slot := grew.slots 0
    rw [FileHeader.slot_direct _ _ (Nat.zero_le _), empty.2.2, if_neg (by decide)] at slot
    obtain ⟨t, rfl⟩ := List.length_eq_one_iff.mp long
    exact ⟨t, List.mem_singleton_self t, slot⟩
  obtain ⟨t, member, first⟩ := first
  have clear := enlarged.takes.clear t member
  have positive := (growable.ofDisk.free clear.1 clear.2).1
  -- The write has gone to the header and to that sector, so the map is read as before.
  have self : hdr'.selfSector = hdr.selfSector := grew.selfSector
  obtain ⟨sameHeader, sameMap⟩ : mapHeader final.disk = mapHeader middle ∧
      freeMapOn final.disk = freeMapOn middle := by
    refine freeMapOn_congr (kept _ (self ▸ apart.1.symm) ?_) ?_
    · rw [first]
      show (0 : Int) ≠ t
      omega
    · rw [enlarged.keepsMap]
      refine kept _ (self ▸ apart.2.symm) ?_
      rw [first]
      exact (OpenFile.fresh_unmarked enlarged.takes member growable.mapMarked).symm
  have mapFile : MapFile final.disk (mapHeader final.disk) := by
    -- The file of the map is as it was.
    rw [sameHeader, enlarged.keepsMap]
    exact growable.mapFile.congr
  -- The file now holds one sector of bytes, of which the number fills four.
  have capacity : given.2.hdr.capacity = 128 := by
    rw [header, grew.capacity, grew.nsectors, empty.2.2, wanted]
    rfl
  have limit : given.2.hdr.limit = 4 := by
    rw [header]
    rfl
  -- The table itself needs a second sector.
  have past : 4 + dir.table.length = directoryLimit := by
    rw [table]
  have grows : given.2.hdr.capacity < (4 + dir.table.length : Nat) := by
    rw [capacity, past]
    decide
  refine Program.Refuses.bind_first (OpenFile.writeAt_unallocated mapFile ?_ ?_ grows
    (OpenFile.mustAllocate_short ?_ grows fun _ => ?_)) final rfl
  · -- The table does not fit, and no sector is left for it.
    rw [table]
    decide
  · rw [limit]
    rfl
  · rw [capacity]
    decide
  · unfold OpenFile.wantedFor
    rw [sameMap, capacity, past, show (freeMapOn middle).numClear = 0 by omega]
    decide

/-- `Create` stops the kernel if only one sector is free for a new directory. -/
theorem FileSystem.create_aborts (sound : Sound disk) (mounted : fs.Mounted disk)
    (creatable : Creatable disk path parent last) (one : (freeMapOn disk).numClear = 1) :
    Fs.Refuses disk (fs.create path .dir) := by
  have found := creatable.leads.isDirectory .root
  obtain ⟨i, sector, freeMap, dir, takes, entered, goesOn⟩ :=
    create_goesOn sound mounted creatable .dir
  -- The header takes the one sector that is free.
  have clear := takes.clear sector List.mem_cons_self
  have inRange := sound.ofDisk.free clear.1 clear.2
  have onDisk : OnDisk sector := ⟨by omega, by exact_mod_cast inRange.2⟩
  have left := takes.numClear
  rw [List.length_singleton] at left
  -- The sector of the map is not the new one.
  obtain ⟨slot, used⟩ := sound.slot_map
  have map : IsHeader disk freeMapSector := .fixed .freeMap
  have mapMarked : Marked disk ((mapHeader disk).dataSector 0) := by
    rw [← slot]
    exact (sound.slot_marked map used).2
  have apart := OpenFile.fresh_unmarked takes List.mem_cons_self mapMarked
  refine goesOn.refuses fun middle changed => ?_
  -- Adding the name has not changed the map.
  have kept : middle ((mapHeader disk).dataSector 0) = disk ((mapHeader disk).dataSector 0) := by
    refine changed.kept _ fun n inside same => ?_
    rw [← slot] at same
    exact sound.tree.directory_ne_map found
      (sound.tree.slot_inj map (isHeader_of_directory found) used same).1.symm
  obtain ⟨sameHeader, sameMap⟩ := freeMapOn_congr (changed.header sound.tree found map) kept
  unfold createHeader
  refine Program.Refuses.bind (FileHeader.new_finds middle sector .dir) ?_
  rintro hdr middle' ⟨rfl, blank⟩
  refine Program.Refuses.bind_first ?_
  -- The header is written although no sectors were found for it.
  have allocates : Fs.Reads middle' (hdr.allocate freeMap directoryFileSize) (false, hdr, freeMap) := by
    refine FileHeader.allocate_short (by decide) (by rw [blank.capacity]; decide)
      (by rw [blank.capacity]) ?_
    show freeMap.numClear < 2
    omega
  -- The header goes to the sector that was found for it.
  have writes : Fs.Yields middle' (hdr.writeBack sector) fun _ after =>
      after = Function.update middle' (sector : Int) hdr.toSector := by
    unfold FileHeader.writeBack
    exact Fs.writeSector_bind onDisk (Program.Yields.pure rfl)
  unfold setUp
  refine allocates.bind_refuses (Program.Refuses.bind writes ?_)
  rintro _ late rfl
  have late_kept : ∀ s : Int, s ≠ sector →
      Function.update middle' (sector : Int) hdr.toSector s = middle' s :=
    fun s other => Function.update_of_ne other _ _
  -- It is read back as it was made.
  have stored : headerAt (Function.update middle' (sector : Int) hdr.toSector) sector = hdr := by
    unfold headerAt
    rw [Function.update_self]
    exact FileHeader.ofSector_toSector (blank.laid middle' onDisk).small
  generalize Function.update middle' (sector : Int) hdr.toSector = late at late_kept stored ⊢
  -- The map is read as before, since its sectors are others than the new one.
  obtain ⟨lateHeader, lateMap⟩ : mapHeader late = mapHeader middle' ∧
      freeMapOn late = freeMapOn middle' := by
    refine freeMapOn_congr (late_kept _ ?_) (late_kept _ ?_)
    · show (0 : Int) ≠ sector
      omega
    · rw [sameHeader]
      exact apart.symm
  rw [sameHeader] at lateHeader
  rw [sameMap] at lateMap
  -- The empty table is then written through a file opened on the new header.
  refine Program.Refuses.bind (Directory.new_finds late sector) ?_
  rintro newdir _ ⟨rfl, -, table, -⟩
  refine (OpenFile.new_reads onDisk).bind_refuses ?_
  rw [stored]
  refine Program.Refuses.bind_first (Directory.writeBack_refuses ⟨blank.laid _ onDisk, ?_, ?_, ?_,
    -- This file could grow, and is empty.
    fun j => ?_⟩ ⟨blank.limit, blank.capacity, blank.nsectors⟩ ⟨?_, ?_⟩ ?_ table)
  · rw [lateHeader]
    exact sound.map.congr
  · rw [lateMap]
    exact sound.ofDisk
  · unfold Marked
    rw [lateMap, lateHeader]
    exact mapMarked
  · -- Its first sector is none of the map's.
    have positive := sound.map.dataSector.2
    rw [blank.slot, lateHeader]
    omega
  · -- Its header is neither of the two sectors that the map is read from.
    rw [blank.self]
    show (sector : Int) ≠ 0
    omega
  · rw [blank.self, lateHeader]
    exact apart
  · -- One sector is free for it.
    rw [lateMap]
    exact one

end Short

/-- The path of a directory so many levels below the root. -/
def nested : Nat → List Byte
  | 0 => [98]
  | levels + 1 => 98 :: slash :: nested levels

namespace nested

/-- The first component of the path of a nested directory. -/
theorem skipelem_succ (levels : Nat) :
    Directory.skipelem (nested (levels + 1)) = some ([98], nested levels) := by
  cases levels <;> rfl

/-- The path of a nested directory has a component. -/
theorem isSome_skipelem (levels : Nat) : (Directory.skipelem (nested levels)).isSome = true := by
  cases levels <;> rfl

/-- The path of the directory that is nested in a nested one. -/
theorem leads_succ {levels : Nat} : ∀ {sector : Int}, Leads disk sector (nested levels) parent last →
    (dirAt disk parent).dirlookup [98] ≠ -1 →
    (headerAt disk ((dirAt disk parent).dirlookup [98])).type = .dir →
    Leads disk sector (nested (levels + 1)) ((dirAt disk parent).dirlookup [98]) [98] := by
  have single : Directory.skipelem (nested 0) = some ([98], []) := by decide
  -- One component is looked up at each level, and the new one is the last.
  induction levels with
  -- The path had one component, which is now looked up.
  | zero =>
    intro sector leads there listing
    cases leads with
    | last split ends => exact .more (skipelem_succ 0) (by decide) there listing (.last single rfl)
    | more split goesOn _ _ _ =>
      cases single.symm.trans split
      exact absurd rfl goesOn
  -- The path begins with a directory, and the rest is shorter.
  | succ levels ih =>
    intro sector leads there listing
    have begins : (nested levels).headD 0 = 98 := by cases levels <;> rfl
    cases leads with
    | last split ends =>
      cases (skipelem_succ levels).symm.trans split
      rw [begins] at ends
      cases ends
    | more split goesOn found dir later =>
      cases (skipelem_succ levels).symm.trans split
      exact .more (skipelem_succ (levels + 1)) (show (98 : Byte) ≠ 0 by decide) found dir
        (ih later there listing)

end nested

namespace Session

variable {session : Session}

/-- So many directories have been made, each in the one before, and the next one can be added. -/
structure Nested (session : Session) (levels : Nat) : Prop where
  inOrder : InOrder session
  free : (freeMapOn session.disk).numClear + 3 * levels = 1009
  creatable : ∃ parent, Creatable session.disk (nested levels) parent [98]

/-- One more directory can be made as long as three sectors are free, and then one for the next. -/
theorem Nested.create (made : Nested session levels) (enough : levels < 336) :
    ∃ after, session.step (.create (nested levels) .dir) = some after ∧
      (Call.create (nested levels) .dir).Careful session ∧ Nested after (levels + 1) := by
  obtain ⟨inOrder, free, parent, creatable⟩ := made
  have sound := inOrder.sound
  have found := creatable.leads.isDirectory .root
  obtain ⟨after, i, newSector, fresh, creates, created, -, -⟩ :=
    create_succeeds inOrder creatable (.inr ⟨rfl, by omega⟩)
  have step : session.step (.create (nested levels) .dir) = some after := congrArg _ creates
  -- Each level takes three sectors, so that the disk is never tight on the way.
  have careful : (Call.create (nested levels) .dir).Careful session := by
    refine ⟨.inr rfl, fun tight => ?_⟩
    have short := tight.2.2
    omega
  -- The new directory is found under its name, and has no names yet.
  obtain ⟨leads, named, entry, -⟩ := created.open_reads sound inOrder.mounted creatable
  obtain ⟨directory, empty⟩ := created.new.dir rfl
  -- The last name of the path leads to it.
  have lookup : (dirAt after.disk parent).dirlookup [98] = newSector := by
    rw [(Directory.findIndex_some named).2.2.2, entry]
  have taken := created.takes.numClear
  rw [List.length_cons, created.length_dir sound] at taken
  refine ⟨after, step, careful, inOrder.step careful step, by omega, newSector, ?_, ?_,
    ⟨0, by decide, empty 0 (by decide)⟩, by omega⟩
  · -- The longer path ends in it.
    have deeper := nested.leads_succ leads (by rw [lookup]; omega) (by rw [lookup]; exact directory.type)
    rwa [lookup] at deeper
  · -- Nothing in it has that name.
    refine Directory.findIndex_eq_none.mpr fun k inside inUse => ?_
    rw [empty k inside] at inUse
    cases inUse

/-- The calls that make one file, and then so many directories, each in the one before. -/
def nesting (levels : Nat) : List Call :=
  .create [97] .file :: (List.range levels).map fun k => .create (nested k) .dir

/-- The directories can be made on any disk that has just been formatted. -/
theorem nesting_succeeds (world : World) {levels : Nat} (enough : levels ≤ 336) :
    ∃ started session, Session.format world = some started ∧
      EveryStep Session.step (fun session call => call.Careful session) started (nesting levels) ∧
      replay Session.step started (nesting levels) = some session ∧ Nested session levels := by
  induction levels with
  -- The file comes first, on the disk that was just formatted.
  | zero =>
    obtain ⟨started, formats⟩ := format_succeeds world
    obtain ⟨formatted, -⟩ := Session.formatted formats
    have inOrder := (Accounted.formatted formats).inOrder
    have sound := inOrder.sound
    have creatable := creatable_formatted formatted
    obtain ⟨session, i, newSector, fresh, creates, made, -, -⟩ :=
      create_succeeds inOrder creatable (.inl rfl)
    have step : started.step (.create [97] .file) = some session := congrArg _ creates
    have careful : (Call.create [97] .file).Careful started :=
      ⟨.inl rfl, fun tight => nomatch tight.1⟩
    -- It has taken one sector for its header.
    have taken := made.takes.numClear
    rw [List.length_cons, (made.new.file rfl).2.2, formatted.free] at taken
    have free : (freeMapOn session.disk).numClear = 1009 := Nat.add_right_cancel taken
    obtain ⟨given, systemOnly⟩ := formatted.systemOnly
    -- Its entry is the only one in the root.
    have inUse : ∀ k < numDirEntries, (dirAt session.disk directorySector).inUse k = decide (k = i) := by
      intro k inside
      rw [made.entered.inUse, systemOnly.empty k inside, Bool.or_false]
    refine ⟨started, session, formats, .cons step careful trivial,
      by rw [nesting, replay_cons step]; rfl, inOrder.step careful step, by rw [free], directorySector,
      .last (show Directory.skipelem [98] = some ([98], []) by decide) rfl, ?_, ?_,
      by rw [free]; decide⟩
    · -- Another name is not that of the file.
      rw [made.entered.findIndex_other (by decide)]
      refine Directory.findIndex_eq_none.mpr fun k inside inUse => ?_
      rw [systemOnly.empty k inside] at inUse
      -- There is room for another entry.
      cases inUse
    · by_cases here : i = 0
      · exact ⟨1, by decide, by rw [inUse 1 (by decide), here]; rfl⟩
      · exact ⟨0, by decide, by rw [inUse 0 (by decide), decide_eq_false (Ne.symm here)]⟩
  -- The directories before this one have been made.
  | succ levels ih =>
    obtain ⟨started, middle, formats, every, ran, made⟩ := ih (by omega)
    obtain ⟨session, step, careful, made⟩ := made.create enough
    -- The calls are those before and one more.
    have calls : nesting (levels + 1) = nesting levels ++ [.create (nested levels) .dir] := by
      unfold nesting
      rw [List.range_succ, List.map_append, List.map_singleton]
      rfl
    rw [calls]
    refine ⟨started, session, formats, every.append ran (.cons step careful trivial), ?_, made⟩
    rw [replay_append ran, replay_cons step]
    rfl

end Session

/-- A name that is there is refused without a change. -/
theorem create_failsCleanly_again : ∃ started session,
    Session.format (World.ofDisk fun _ => .ofBytes []) = some started ∧
      replay Session.step started [.create [97] .file] = some session ∧
      session.fs.CreateFailsCleanly session.disk [97] .dir := by
  obtain ⟨started, session, formats, careful, ran, made⟩ :=
    Session.nesting_succeeds (World.ofDisk fun _ => .ofBytes []) (Nat.zero_le 336)
  refine ⟨started, session, formats, ran, create_failsCleanly formats careful ran (by decide) (.inr rfl)
    fun tight => ?_⟩
  have short := tight.2.2
  have free := made.free
  omega

/-- After a file and 336 directories, making one more directory stops the kernel. -/
theorem create_failsBadly : ∃ started session,
    Session.format (World.ofDisk fun _ => .ofBytes []) = some started ∧
      replay Session.step started (Session.nesting 336) = some session ∧
      (Directory.skipelem (nested 336)).isSome = true ∧
      ¬ session.fs.CreateFailsCleanly session.disk (nested 336) .dir := by
  obtain ⟨started, session, formats, -, ran, ⟨inOrder, free, parent, creatable⟩⟩ :=
    Session.nesting_succeeds (World.ofDisk fun _ => .ofBytes []) (Nat.le_refl 336)
  refine ⟨started, session, formats, ran, nested.isSome_skipelem 336, fun cleanly => ?_⟩
  have aborts := FileSystem.create_aborts inOrder.sound inOrder.mounted creatable (by omega)
  obtain ⟨_, _, ended, -⟩ := cleanly (World.ofDisk session.disk) rfl
  rw [aborts (World.ofDisk session.disk) rfl] at ended
  cases ended

end Nachos
