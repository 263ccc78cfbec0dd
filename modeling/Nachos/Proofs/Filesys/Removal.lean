import Nachos.Proofs.Filesys.Careful

/-! What removing frees: exactly the sectors of a file, and what is left below a directory. -/

namespace Nachos

/-- Is this the header of a file, or one of the sectors that the header names? -/
def Belongs (disk : Disk) (header : Int) (s : Int) : Prop :=
  s = header ∨ ∃ j, (headerAt disk header).slot disk j = s ∧ s ≠ 0

/-- The sectors of the file are free, and every other one is as it was. -/
structure FreesExactly (disk after : Disk) (header : Int) : Prop where
  freed : ∀ s < numSectors, Belongs disk header s → (freeMapOn after).bit s = false
  kept : ∀ s < numSectors, ¬ Belongs disk header s →
    (freeMapOn after).bit s = (freeMapOn disk).bit s

/-- Whenever `Remove` reports success, it has freed the sectors of the file and no others. -/
def FileSystem.RemoveFreesExactly (disk : Disk) (fs : FileSystem) (path : List Byte) (header : Int) :
    Prop :=
  ∀ world, world.disk = disk → Program.Meets World.serve (fs.remove path) world fun given final =>
    given.1 = true → FreesExactly disk final.disk header

variable {disk after : Disk} {fs : FileSystem} {path : List Byte} {parent sector : Int} {i : Nat}

/-- The bits that are cleared are those of the file, unless bit 0 goes with them. -/
theorem Removed.freesExactly_iff (left : Removed disk after parent i sector) (sound : Sound disk)
    (found : IsDirectory disk parent) (named : (holdings disk).entry parent i = some sector) :
    FreesExactly disk after sector ↔ ¬ (headerAt disk sector).PartIndexed := by
  have header : IsHeader disk sector := .entry found named
  have bit : ∀ s : Nat, (freeMapOn after).bit s = true ↔ (freeMapOn disk).bit s = true ∧
      ¬ (s = 0 ∧ (headerAt disk sector).PartIndexed) ∧ ¬ Belongs disk sector s := by
    -- A bit survives if it is not one of the file, and not bit 0 for an empty entry.
    intro s
    have here := left.bits s
    unfold Marked at here
    rw [Int.toNat_natCast] at here
    rw [here]
    refine and_congr_right fun _ => ?_
    unfold Belongs
    constructor
    · -- The sector is neither the header nor in a slot.
      rintro ⟨empty, whole, other⟩
      refine ⟨whole, ?_⟩
      rintro (same | ⟨j, same, there⟩)
      · exact other same
      · exact there (same ▸ empty j same)
    · -- The other way: no slot has the sector.
      rintro ⟨whole, apart⟩
      refine ⟨fun j same => ?_, whole, fun same => apart (.inl same)⟩
      by_contra there
      exact apart (.inr ⟨j, same, same ▸ there⟩)
  constructor
  · -- Bit 0 is that of the map's own header, which belongs to no other file.
    intro frees part
    have system : IsHeader disk freeMapSector := .fixed .freeMap
    have apart : ¬ Belongs disk sector ((0 : Nat) : Int) := by
      -- The header of the map is not the one that was removed, nor in a slot of it.
      rintro (same | ⟨j, -, there⟩)
      · have gone := (left.loses sound found).gone sound.tree found named
        exact gone (same ▸ .fixed .freeMap)
      · exact there rfl
    -- It was marked, and would have to be so still.
    have marked : (freeMapOn disk).bit 0 = true := (sound.header_marked system).2
    have same := frees.kept 0 (by decide) apart
    rw [marked] at same
    exact ((bit 0).mp same).2.1 ⟨rfl, part⟩
  · -- Without empty entries only the sectors of the file are freed.
    intro whole
    -- Those of the file are.
    refine ⟨fun s _ belongs => ?_, fun s _ apart => ?_⟩
    · rw [← Bool.not_eq_true, bit]
      exact fun both => both.2.2 belongs
    · -- The others are not.
      rw [Bool.eq_iff_iff, bit]
      exact ⟨And.left, fun marked => ⟨marked, fun both => whole both.2, apart⟩⟩

/-- `Remove` removes the entry of a directory that the path names. -/
theorem Session.Names.removes (names : Session.Names disk path sector) (sound : Sound disk)
    (mounted : fs.Mounted disk) :
    ∃ parent i, IsDirectory disk parent ∧ (holdings disk).entry parent i = some sector ∧
      Fs.Yields disk (fs.remove path) fun given after =>
        given = (true, fs) ∧ Removed disk after parent i sector := by
  obtain ⟨parent, last, i, leads, named, rfl⟩ := names
  obtain ⟨inside, inUse, -, -⟩ := Directory.findIndex_some named
  exact ⟨parent, i, leads.isDirectory .root, entry_eq_some.mpr ⟨⟨inside, inUse⟩, rfl⟩,
    FileSystem.remove_yields sound mounted leads named⟩

/-- Removing a file frees exactly that file if its index sector, if any, is filled or not needed. -/
theorem remove_freesExactly_iff (sound : Sound disk) (mounted : fs.Mounted disk)
    (names : Session.Names disk path sector) :
    fs.RemoveFreesExactly disk path sector ↔ ¬ (headerAt disk sector).PartIndexed := by
  obtain ⟨parent, i, found, entry, yields⟩ := names.removes sound mounted
  constructor
  · intro frees
    obtain ⟨_, final, ran, rfl, left⟩ := yields (World.ofDisk disk) rfl
    exact (left.freesExactly_iff sound found entry).mp (frees _ rfl _ _ ran rfl)
  · intro whole world seen given final ran _
    obtain ⟨-, left⟩ := yields.holds seen ran
    exact (left.freesExactly_iff sound found entry).mpr whole

/-- The file of the run is found by its path. -/
theorem Session.OneFile.names {session : Session} {source : List Byte} {i : Nat} {sector : Int}
    (oneFile : Session.OneFile session source i sector) : Session.Names session.disk [97] sector :=
  ⟨directorySector, [97], i, oneFile.leads, oneFile.named, oneFile.entry⟩

/-- A file as large as files can be is removed without a trace, with its index sector. -/
theorem remove_freesExactly_full : ∃ started session sector,
    Session.format (World.ofDisk fun _ => .ofBytes []) = some started ∧
      replay Session.step started (Session.oneFile (.replicate 7168 7)) = some session ∧
      (headerAt session.disk sector).nsectors = 56 ∧
      session.fs.RemoveFreesExactly session.disk [97] sector := by
  obtain ⟨started, session, i, sector, formats, -, ran, oneFile⟩ :=
    Session.oneFile_succeeds (World.ofDisk fun _ => .ofBytes [])
      (show 0 < (List.replicate 7168 (7 : Byte)).length by rw [List.length_replicate]; decide)
      (by rw [List.length_replicate]; decide)
  have inOrder := oneFile.accounted.inOrder
  -- It has all the sectors that a file can have.
  have full : (headerAt session.disk sector).nsectors = 56 := by
    rw [oneFile.nsectors, List.length_replicate]
    decide
  -- The removal is exact.
  refine ⟨started, session, sector, formats, ran, full,
    (remove_freesExactly_iff inOrder.sound inOrder.mounted oneFile.names).mpr ?_⟩
  -- All entries of the index sector are in use.
  unfold FileHeader.PartIndexed
  rw [full]
  decide

/-- Removing a file of 25 sectors frees the sector of the map's header, too. -/
theorem remove_freesTooMuch : ∃ started session sector,
    Session.format (World.ofDisk fun _ => .ofBytes []) = some started ∧
      replay Session.step started (Session.oneFile (.replicate 3200 7)) = some session ∧
      Sound session.disk ∧ Exact session.disk ∧ session.fs.Mounted session.disk ∧
      Session.Names session.disk [97] sector ∧ (headerAt session.disk sector).type = .file ∧
      ¬ session.fs.RemoveFreesExactly session.disk [97] sector := by
  obtain ⟨started, session, i, sector, formats, -, ran, oneFile⟩ :=
    Session.oneFile_succeeds (World.ofDisk fun _ => .ofBytes [])
      (show 0 < (List.replicate 3200 (7 : Byte)).length by rw [List.length_replicate]; decide)
      (by rw [List.length_replicate]; decide)
  -- The disk is sound before the call.
  obtain ⟨⟨sound, mounted⟩, exactly, -⟩ := oneFile.accounted
  refine ⟨started, session, sector, formats, ran, sound, exactly, mounted, oneFile.names, oneFile.type,
    fun frees => ?_⟩
  refine (remove_freesExactly_iff sound mounted oneFile.names).mp frees ?_
  -- A file of 25 sectors uses a part of its index sector.
  unfold FileHeader.PartIndexed
  rw [oneFile.nsectors, List.length_replicate]
  decide

/-- `Remove` refuses and changes nothing, or everything that is marked afterwards is owned. -/
def FileSystem.RemoveLeaksNothing (disk : Disk) (fs : FileSystem) (path : List Byte) : Prop :=
  Fs.Yields disk (fs.remove path) fun given after =>
    (given.1 = false ∧ after = disk) ∨ Exact after

/-- What was below a removed directory is marked still, but has no owner. -/
theorem Removed.exact_iff (left : Removed disk after parent i sector) (sound : Sound disk)
    (found : IsDirectory disk parent) (named : (holdings disk).entry parent i = some sector)
    (exactly : Exact disk) (isDir : (headerAt disk sector).type = .dir) :
    Exact after ↔ ∀ k < numDirEntries, (dirAt disk sector).inUse k = false := by
  have directory : IsDirectory disk sector := .entry found named isDir
  constructor
  swap
  · -- An empty directory leaks nothing.
    exact fun empty => left.stillExact sound found named exactly fun _ => empty
  -- The other way: an entry in use would leak its header.
  intro exactly k inside
  by_contra inUse
  rw [Bool.not_eq_false] at inUse
  -- The header of an entry is marked, and it is not a sector of the directory.
  have listed : (holdings disk).entry sector k = some ((dirAt disk sector).entrySector k) :=
    entry_eq_some.mpr ⟨⟨inside, inUse⟩, rfl⟩
  generalize (dirAt disk sector).entrySector k = child at listed
  have header : IsHeader disk child := .entry directory listed
  obtain ⟨onDisk, marked⟩ := sound.header_marked header
  obtain ⟨n, rfl⟩ := Int.eq_ofNat_of_zero_le onDisk.1
  -- A directory has direct sectors only.
  have whole : ¬ (headerAt disk sector).PartIndexed := by
    unfold FileHeader.PartIndexed
    rw [(sound.directory sector directory).nsectors]
    decide
  -- So removing it does not touch the header of the entry.
  have still : Marked after n := by
    refine (left.bits n).mpr ⟨marked, fun j same => ?_, fun both => whole both.2,
      sound.tree.ne_listed directory listed⟩
    by_contra there
    exact sound.tree.header_ne_slot header (isHeader_of_directory directory) there same
  -- Its only owner was the entry, which is not found any more.
  obtain ⟨owner, owns⟩ := exactly n onDisk still
  have loses := left.loses sound found
  have before := (loses.owns_old sound.tree found named owns).1
  have entry := sound.unshared _ _ _ before (.entry directory listed)
  subst entry
  cases owns with
  | entry again _ => exact loses.gone sound.tree found named (isHeader_of_directory again)

/-- Removing a directory leaks nothing if and only if it has no entries. -/
theorem FileSystem.removeLeaksNothing_iff (sound : Sound disk) (mounted : fs.Mounted disk)
    (exactly : Exact disk) (names : Session.Names disk path sector)
    (isDir : (headerAt disk sector).type = .dir) :
    fs.RemoveLeaksNothing disk path ↔
      ∀ k < numDirEntries, (dirAt disk sector).inUse k = false := by
  -- The name is that of an entry.
  obtain ⟨parent, i, found, entry, yields⟩ := names.removes sound mounted
  unfold FileSystem.RemoveLeaksNothing
  constructor
  · -- The call succeeds, and so its disk is the one to look at.
    intro leaks
    obtain ⟨_, final, ran, rfl, left⟩ := yields (World.ofDisk disk) rfl
    obtain ⟨_, _, also, outcome⟩ := leaks (World.ofDisk disk) rfl
    cases ran.symm.trans also
    -- It succeeds, so it does not refuse.
    rcases outcome with ⟨refused, -⟩ | still
    · cases refused
    · exact (left.exact_iff sound found entry exactly isDir).mp still
  · -- The other way: nothing leaks where there are no entries.
    intro empty
    refine yields.mono ?_
    rintro _ after ⟨-, left⟩
    exact .inr ((left.exact_iff sound found entry exactly isDir).mpr empty)

/--
In every state of a careful run that removes no directory with entries, removing a directory leaks
nothing if and only if it has no entries.
-/
theorem remove_leaksNothing_iff {world : World} {started session : Session} {calls : List Call}
    (formats : Session.format world = some started)
    (thrifty : EveryStep Session.step (fun session call => call.Thrifty session) started calls)
    (ran : replay Session.step started calls = some session)
    (names : Session.Names session.disk path sector)
    (isDir : (headerAt session.disk sector).type = .dir) :
    session.fs.RemoveLeaksNothing session.disk path ↔
      ∀ k < numDirEntries, (dirAt session.disk sector).inUse k = false := by
  obtain ⟨⟨sound, mounted⟩, exactly⟩ := Session.InOrder.run_exactly formats thrifty ran
  exact FileSystem.removeLeaksNothing_iff sound mounted exactly names isDir

namespace Session

/-- What is left when a directory has been made on a formatted disk. -/
structure NewDirectory (session : Session) (i : Nat) (sector : Int) : Prop where
  inOrder : InOrder session
  named : (dirAt session.disk directorySector).findIndex [97] = some i
  entry : (dirAt session.disk directorySector).entrySector i = sector
  found : IsDirectory session.disk sector
  empty : ∀ k < numDirEntries, (dirAt session.disk sector).inUse k = false
  below : Creatable session.disk [97, slash, 98] sector [98]

/-- The directory is found by its path. -/
theorem NewDirectory.names {session : Session} {i : Nat} {sector : Int}
    (made : NewDirectory session i sector) : Names session.disk [97] sector :=
  ⟨directorySector, [97], i, .last (show Directory.skipelem [97] = some ([97], []) by decide) rfl,
    made.named, made.entry⟩

/-- A directory can be made on any disk that has just been formatted. -/
theorem newDirectory_succeeds (world : World) :
    ∃ started session i sector, Session.format world = some started ∧
      EveryStep Session.step (fun session call => call.Thrifty session) started
        [.create [97] .dir] ∧
      replay Session.step started [.create [97] .dir] = some session ∧
      NewDirectory session i sector := by
  -- The disk is formatted, and has room for a directory.
  obtain ⟨started, formats⟩ := format_succeeds world
  obtain ⟨formatted, -⟩ := Session.formatted formats
  have inOrder := (Accounted.formatted formats).inOrder
  have sound := inOrder.sound
  have creatable := creatable_formatted formatted
  have free := formatted.free
  obtain ⟨session, i, newSector, fresh, creates, made, fs, -⟩ :=
    create_succeeds inOrder creatable (.inr ⟨rfl, by rw [free]; decide⟩)
  have step : started.step (.create [97] .dir) = some session := congrArg _ creates
  -- The call is within the promise.
  have thrifty : (Call.create [97] .dir).Thrifty started := by
    refine ⟨⟨.inr rfl, fun tight => ?_⟩, nofun⟩
    have short := tight.2.2
    rw [free] at short
    exact absurd short (by decide)
  have found : IsDirectory started.disk directorySector := .root
  -- The new directory is found under its name.
  obtain ⟨-, named, entry, -⟩ := made.open_reads sound inOrder.mounted creatable
  have adds := (made.gains sound found).adds sound.tree found
  -- It is empty.
  obtain ⟨directory, empty⟩ := made.new.dir rfl
  have foundNew : IsDirectory session.disk newSector :=
    .entry (adds.directory_kept found) adds.named directory.type
  have lookup : (dirAt session.disk directorySector).dirlookup [97] = newSector := by
    rw [(Directory.findIndex_some named).2.2.2, entry]
  refine ⟨started, session, i, newSector, formats, .cons step thrifty trivial,
    by rw [replay_cons step]; rfl, inOrder.step thrifty.1 step, named, entry, foundNew, empty,
    ?_, ?_, ?_, ?_⟩
  · -- The path with the name of the file goes through it.
    refine .more (show Directory.skipelem [97, slash, 98] = some ([97], [98]) by decide) (by decide)
      ?_ ?_ ?_
    · rw [lookup]
      omega
    · rw [lookup]
      exact directory.type
    · rw [lookup]
      exact .last (show Directory.skipelem [98] = some ([98], []) by decide) rfl
  · -- That name is not in it yet.
    refine Directory.findIndex_eq_none.mpr fun k inside inUse => ?_
    rw [empty k inside] at inUse
    cases inUse
  · -- It has a free entry.
    exact ⟨0, by decide, empty 0 (by decide)⟩
  · -- No more than three sectors have been taken.
    have taken := made.takes.numClear
    rw [free, List.length_cons, made.length_dir sound] at taken
    omega

end Session

/-- An empty directory is removed without a trace. -/
theorem remove_leaksNothing_empty : ∃ started session sector,
    Session.format (World.ofDisk fun _ => .ofBytes []) = some started ∧
      replay Session.step started [.create [97] .dir] = some session ∧
      Session.Names session.disk [97] sector ∧
      (session.fs.RemoveLeaksNothing session.disk [97] ↔
        ∀ k < numDirEntries, (dirAt session.disk sector).inUse k = false) ∧
      session.fs.RemoveLeaksNothing session.disk [97] := by
  obtain ⟨started, session, i, sector, formats, thrifty, ran, made⟩ :=
    Session.newDirectory_succeeds (World.ofDisk fun _ => .ofBytes [])
  have iff := remove_leaksNothing_iff formats thrifty ran made.names
    (made.inOrder.sound.directory sector made.found).type
  exact ⟨started, session, sector, formats, ran, made.names, iff, iff.mpr made.empty⟩

/-- Removing a directory with one file in it leaves the header of that file marked for good. -/
theorem remove_leaksFile : ∃ started session sector,
    Session.format (World.ofDisk fun _ => .ofBytes []) = some started ∧
      replay Session.step started [.create [97] .dir, .create [97, slash, 98] .file] = some session ∧
      Sound session.disk ∧ Exact session.disk ∧ session.fs.Mounted session.disk ∧
      Session.Names session.disk [97] sector ∧ (headerAt session.disk sector).type = .dir ∧
      ¬ session.fs.RemoveLeaksNothing session.disk [97] := by
  obtain ⟨started, middle, k, sector, formats, thrifty, ran, above⟩ :=
    Session.newDirectory_succeeds (World.ofDisk fun _ => .ofBytes [])
  have inOrder := above.inOrder
  have sound := inOrder.sound
  have found := above.found
  -- The file is created in the directory.
  obtain ⟨session, i, newSector, fresh, creates, made, -, -⟩ :=
    Session.create_succeeds inOrder above.below (.inl rfl)
  have step : middle.step (.create [97, slash, 98] .file) = some session := congrArg _ creates
  have thrifty' : (Call.create [97, slash, 98] .file).Thrifty middle :=
    ⟨⟨.inl rfl, fun tight => nomatch tight.1⟩, nofun⟩
  have later : EveryStep Session.step (fun session call => call.Thrifty session) middle
      [.create [97, slash, 98] .file] := .cons step thrifty' trivial
  -- The run is within the promise so far.
  have every := thrifty.append ran later
  have goesOn : replay Session.step started
      ([.create [97] .dir] ++ [.create [97, slash, 98] .file]) = some session := by
    rw [replay_append ran, replay_cons step]
    rfl
  obtain ⟨stillInOrder, exactly⟩ := Session.InOrder.run_exactly formats every goesOn
  -- The directory is still found by its path, as the root has not changed.
  obtain ⟨inside, inUse, -, -⟩ := Directory.findIndex_some above.named
  have listed : (holdings middle.disk).entry directorySector k = some sector :=
    entry_eq_some.mpr ⟨⟨inside, inUse⟩, above.entry⟩
  have root : dirAt session.disk directorySector = dirAt middle.disk directorySector :=
    (made.changedAt sound found).dirAt_other sound.tree .root (sound.tree.ne_listed .root listed).symm
  -- The path leads to the directory.
  have names : Session.Names session.disk [97] sector :=
    ⟨directorySector, [97], k, .last (show Directory.skipelem [97] = some ([97], []) by decide) rfl,
      by rw [root]; exact above.named, by rw [root]; exact above.entry⟩
  -- It is one still.
  have adds := (made.gains sound found).adds sound.tree found
  have isDir := (stillInOrder.sound.directory sector (adds.directory_kept found)).type
  refine ⟨started, session, sector, formats, goesOn, stillInOrder.sound, exactly,
    stillInOrder.mounted, names, isDir, fun leaks => ?_⟩
  -- It has one entry, that of the new file.
  have empty := (FileSystem.removeLeaksNothing_iff stillInOrder.sound stillInOrder.mounted exactly
    names isDir).mp leaks i made.entered.inside
  rw [made.entered.inUse, decide_eq_true rfl, Bool.true_or] at empty
  cases empty

end Nachos
