import Nachos.Proofs.Filesys.Progress

/-! Sector ownership: what runs of calls keep of it, and what removing files frees. -/

namespace Nachos

/-- A call of a run in which nothing fails, and nobody writes through an outdated handle. -/
def Call.Orderly (session : Session) (call : Call) : Prop :=
  (match call with
    | .create _ type => type = .file ∨ type = .dir
    | .remove _ => False
    | .write handle _ | .writeAt handle _ _ => ∀ held, session.handles[handle]? = some held →
        held.fresh = true ∧ held.file.hdr.type = .file
    | _ => True) ∧
    ∀ result after, session.call call = some (result, after) → call.Success result

namespace Session

/-- Sectors are owned exactly if they are marked, and fresh handles are as the disk has their files. -/
structure Accounted (session : Session) : Prop where
  inOrder : InOrder session
  exactly : Exact session.disk
  current : ∀ held ∈ session.handles, held.fresh = true →
    OpenFile.Current session.disk held.file

variable {session after : Session}

/-- An idle call keeps the accounts. -/
theorem Accounted.idle (accounted : Accounted session) (idle : Idle session after) :
    Accounted after := by
  refine ⟨accounted.inOrder.congr idle.disk idle.fs, ?_, fun held member fresh => ?_⟩
  · rw [idle.disk]
    exact accounted.exactly
  · -- A handle is one from before that may have moved.
    have there : known held ∈ session.handles.map known := by
      rw [← idle.handles]
      exact List.mem_map_of_mem member
    obtain ⟨before, member', same⟩ := List.mem_map.mp there
    obtain ⟨header, flag⟩ := Prod.mk.inj same
    rw [idle.disk]
    exact (accounted.current before member' (flag.trans fresh)).moved header.symm

/-- Creating a file keeps the accounts. -/
theorem Accounted.created (accounted : Accounted session) {kind : FileType}
    (created : CreatedIn session after kind) : Accounted after := by
  obtain ⟨⟨parent, last, i, sector, fresh, found, created⟩, fs, handles⟩ := created
  obtain ⟨⟨sound, mounted⟩, exactly, current⟩ := accounted
  -- The name has been added to the directory.
  have adds := (created.gains sound found).adds sound.tree found
  refine ⟨⟨created.stillSound sound found, ?_⟩, created.stillExact sound found exactly,
    fun held member flag => ?_⟩
  · -- The map and the root are those in memory.
    rw [fs]
    exact created.stillMounted sound found mounted
  · -- The handles are those from before, and their names are still there.
    rw [handles] at member
    obtain ⟨⟨directory, j, isDirectory, entry⟩, header⟩ := current held member flag
    refine ⟨⟨directory, j, adds.directory_kept isDirectory, adds.entry_kept isDirectory entry⟩, ?_⟩
    -- The headers that were there are left alone.
    rw [← header]
    have same := (created.changedAt sound found).header (.entry isDirectory entry)
    exact congrArg FileHeader.ofSector (by rw [header]; exact same)

/-- What a directory names it still names after a write to a file. -/
theorem named_kept {disk after : Disk} {sector record : Int} {hdr' : FileHeader}
    {source : List Byte} {position : Nat} {fresh : List Nat}
    (wrote : OpenFile.Wrote disk after (headerAt disk sector) hdr' source position fresh)
    (sound : Sound disk) (isFile : IsFile disk sector)
    (named : ∃ directory i, IsDirectory disk directory ∧
      (holdings disk).entry directory i = some record) :
    ∃ directory i, IsDirectory after directory ∧ (holdings after).entry directory i = some record := by
  obtain ⟨directory, i, isDirectory, entry⟩ := named
  refine ⟨directory, i, (wrote.isDirectory_iff sound isFile directory).mpr isDirectory, ?_⟩
  rw [wrote.entry_eq sound isFile isDirectory]
  exact entry

/-- A current handle of another file stays current when a file is written. -/
theorem current_kept {disk after : Disk} {sector : Int} {hdr' : FileHeader} {source : List Byte}
    {position : Nat} {fresh : List Nat} {file : OpenFile}
    (wrote : OpenFile.Wrote disk after (headerAt disk sector) hdr' source position fresh)
    (sound : Sound disk) (isFile : IsFile disk sector) (current : OpenFile.Current disk file)
    (other : file.hdr.selfSector ≠ sector) : OpenFile.Current after file := by
  refine ⟨named_kept wrote sound isFile current.named, ?_⟩
  obtain ⟨directory, i, isDirectory, entry⟩ := current.named
  exact (congrArg FileHeader.ofSector
    (wrote.header_other sound isFile.isHeader (.entry isDirectory entry) other)).trans current.header

/-- Writing through a fresh handle keeps the accounts. -/
theorem Accounted.wrote (accounted : Accounted session) {handle : Nat} {held : Handle}
    {file' : OpenFile} {source : List Byte} (there : session.handles[handle]? = some held)
    (flag : held.fresh = true) (type : held.file.hdr.type = .file)
    (wrote : WroteIn session after handle held.file file' source) : Accounted after := by
  obtain ⟨⟨start, fresh, wrote⟩, fs, handles⟩ := wrote
  obtain ⟨⟨sound, mounted⟩, exactly, current⟩ := accounted
  -- The handle has the header of its file.
  have mine := current held (List.mem_of_getElem? there) flag
  have isFile := mine.isFile type sound
  have self : file'.hdr.selfSector = held.file.hdr.selfSector := wrote.grew.selfSector
  rw [← mine.header] at wrote
  -- The header that was written is the one of the new handle.
  have header := wrote.header_self sound isFile.isHeader
  refine ⟨⟨wrote.stillSound sound isFile, ?_⟩, wrote.stillExact sound isFile exactly,
    fun other member fresh => ?_⟩
  · -- What is in memory is what is on the disk still.
    rw [fs]
    exact wrote.stillMounted sound isFile mounted
  rw [handles] at member
  obtain ⟨i, inside, same⟩ := List.mem_mapIdx.mp member
  by_cases here : i = handle
  · -- The handle itself has the header that it has written.
    rw [if_pos here] at same
    subst same
    refine ⟨?_, ?_⟩
    · dsimp only
      rw [self]
      exact named_kept wrote sound isFile mine.named
    · dsimp only
      rw [self]
      exact header
  rw [if_neg here] at same
  -- Another handle of the same file is not fresh any more.
  by_cases shared : session.handles[i].file.hdr.selfSector = file'.hdr.selfSector
  · rw [if_pos shared] at same
    subst same
    cases fresh
  · -- Any other handle is of another file.
    rw [if_neg shared] at same
    subst same
    exact current_kept wrote sound isFile (current _ (List.getElem_mem inside) fresh) (self ▸ shared)

/-- A handle that an orderly call writes through is fresh, and one of an ordinary file. -/
theorem orderly_writes {call : Call} (orderly : call.Orderly session) {handle : Nat}
    {source : List Byte} (writes : call.writes = some (handle, source)) {held : Handle}
    (there : session.handles[handle]? = some held) :
    held.fresh = true ∧ held.file.hdr.type = .file := by
  cases call with
  | write _ _ =>
    cases writes
    exact orderly.1 held there
  | writeAt _ _ _ =>
    cases writes
    exact orderly.1 held there
  | _ => cases writes

/-- What an orderly call can do. -/
theorem Accounted.did (accounted : Accounted session) {call : Call} (orderly : call.Orderly session)
    (stepped : session.step call = some after) :
    ∃ result, call.Success result ∧ Did session after call result := by
  obtain ⟨⟨result, next⟩, made, rfl⟩ := Option.map_eq_some_iff.mp stepped
  refine ⟨result, orderly.2 result next made, call_did accounted.inOrder ?_ ?_ made⟩
  · rintro path kind rfl
    exact orderly.1
  · intro handle source writes held there
    obtain ⟨flag, type⟩ := orderly_writes orderly writes there
    exact (accounted.current held (List.mem_of_getElem? there) flag).ready type accounted.inOrder.sound

/-- Each call of an orderly run keeps the accounts. -/
theorem Accounted.step (accounted : Accounted session) {call : Call}
    (orderly : call.Orderly session) (stepped : session.step call = some after) :
    Accounted after := by
  obtain ⟨result, success, did⟩ := accounted.did orderly stepped
  cases did with
  -- Nothing has changed.
  | idle idle => exact accounted.idle idle
  | created created => exact accounted.created created
  -- A call that is tight has failed, which is not orderly.
  | tight tight => cases success
  -- Opening changes the handles only.
  | opened current _ disk fs handles =>
    refine ⟨accounted.inOrder.congr disk fs, disk ▸ accounted.exactly, fun held member flag => ?_⟩
    rw [handles] at member
    rw [disk]
    -- The one new handle has the header that has just been read.
    rcases List.mem_append.mp member with old | new
    · exact accounted.current held old flag
    · rw [List.mem_singleton.mp new]
      exact current
  -- A write through a fresh handle of an ordinary file.
  | wrote writes there wrote =>
    obtain ⟨flag, type⟩ := orderly_writes orderly writes there
    exact accounted.wrote there flag type wrote
  -- Removals are not orderly.
  | removed => exact orderly.1.elim

/-- Any disk can be formatted. -/
theorem format_succeeds (world : World) : ∃ started, Session.format world = some started := by
  obtain ⟨fs, final, ran, -⟩ := FileSystem.format_yields world.disk world rfl
  refine ⟨⟨final, fs, []⟩, ?_⟩
  unfold Session.format
  rw [ran]
  rfl

/-- What is known of a session whose disk has just been formatted. -/
theorem formatted {world : World} {started : Session} (formats : Session.format world = some started) :
    FileSystem.Formatted started.disk started.fs ∧ started.handles = [] := by
  obtain ⟨⟨fs, final⟩, ran, rfl⟩ := Option.map_eq_some_iff.mp formats
  exact ⟨(FileSystem.format_yields world.disk).holds rfl ran, rfl⟩

/-- The accounts of a formatted disk are in order. -/
theorem Accounted.formatted {world : World} {started : Session}
    (formats : Session.format world = some started) : Accounted started := by
  obtain ⟨⟨⟨given, systemOnly⟩, mounted, -⟩, handles⟩ := Session.formatted formats
  refine ⟨⟨systemOnly.sound, mounted⟩, systemOnly.exactly, fun held member => ?_⟩
  rw [handles] at member
  cases member

/-- A name that any empty directory has a place for. -/
theorem creatable_formatted {started : Session}
    (formatted : FileSystem.Formatted started.disk started.fs) :
    Creatable started.disk [97] directorySector [97] := by
  obtain ⟨⟨given, systemOnly⟩, -, free⟩ := formatted
  refine ⟨.last (show Directory.skipelem [97] = some ([97], []) by decide) rfl, ?_,
    ⟨0, by decide, systemOnly.empty 0 (by decide)⟩, by rw [free]; decide⟩
  refine Directory.findIndex_eq_none.mpr fun i inside inUse => ?_
  rw [systemOnly.empty i inside] at inUse
  cases inUse

/-- The calls that create a file and open it. -/
abbrev newFile : List Call := [.create [97] .file, .«open» [97]]

/-- What is left when a file has been created on a formatted disk and opened. -/
structure NewlyOpened (session : Session) (i : Nat) (sector : Int) : Prop where
  accounted : Accounted session
  handles : session.handles = [⟨⟨headerAt session.disk sector, 0⟩, true⟩]
  new : OpenFile.NewFile session.disk ⟨headerAt session.disk sector, 0⟩
  self : (headerAt session.disk sector).selfSector = sector
  free : (freeMapOn session.disk).numClear = 1009
  leads : Leads session.disk directorySector [97] directorySector [97]
  named : (dirAt session.disk directorySector).findIndex [97] = some i
  entry : (dirAt session.disk directorySector).entrySector i = sector

/-- A file can be created on any disk that has just been formatted. -/
theorem newFile_succeeds (world : World) :
    ∃ started session i sector, Session.format world = some started ∧
      EveryStep Session.step (fun session call => call.Orderly session) started newFile ∧
      replay Session.step started newFile = some session ∧ NewlyOpened session i sector := by
  -- The disk is formatted, and no file is open.
  obtain ⟨started, formats⟩ := format_succeeds world
  obtain ⟨formatted, noHandles⟩ := Session.formatted formats
  have accounted := Accounted.formatted formats
  have creatable := creatable_formatted formatted
  -- The file is created in the root.
  obtain ⟨first, i, newSector, fresh, creates, made, fs, handles⟩ :=
    create_succeeds accounted.inOrder creatable (.inl rfl)
  have step : started.step (.create [97] .file) = some first := congrArg _ creates
  -- The call is orderly, since it succeeds.
  have orderly : (Call.create [97] .file).Orderly started := ⟨.inl rfl, fun result after also => by
    rw [creates] at also
    cases also
    rfl⟩
  have sound := accounted.inOrder.sound
  obtain ⟨leads, named, entry, reads⟩ := made.open_reads sound accounted.inOrder.mounted creatable
  rw [← fs] at reads
  -- It is opened as a new file.
  obtain ⟨second, opens, disk, -, handles'⟩ := open_succeeds reads
  have step' : first.step (.«open» [97]) = some second := congrArg _ opens
  -- So is the next one.
  have orderly' : (Call.«open» [97]).Orderly first := ⟨trivial, fun result after also => by
    rw [opens] at also
    cases also
    rfl⟩
  -- One sector is taken, that of the header.
  have clear := made.takes.numClear
  rw [formatted.free, (made.new.file rfl).2.2] at clear
  rw [handles, noHandles, List.nil_append] at handles'
  refine ⟨started, second, i, newSector, formats, .cons step orderly (.cons step' orderly' trivial),
    by rw [newFile, replay_cons step, replay_cons step']; rfl,
    (accounted.step orderly step).step orderly' step', ?_, ?_, ?_, ?_, ?_, ?_, ?_⟩
  -- The disk is as it was before opening.
  all_goals rw [disk]
  · exact handles'
  · exact made.newFile sound .root
  · exact made.new.self
  · exact Nat.add_right_cancel clear
  · exact leads
  · exact named
  · exact entry

/-- What is left when a file has been created on a formatted disk, opened and written. -/
structure OneFile (session : Session) (source : List Byte) (i : Nat) (sector : Int) : Prop where
  accounted : Accounted session
  leads : Leads session.disk directorySector [97] directorySector [97]
  named : (dirAt session.disk directorySector).findIndex [97] = some i
  entry : (dirAt session.disk directorySector).entrySector i = sector
  type : (headerAt session.disk sector).type = .file
  nsectors : (headerAt session.disk sector).nsectors = divRoundUp source.length sectorSize

/-- The calls that create a file, open it, and write to it. -/
abbrev oneFile (source : List Byte) : List Call := newFile ++ [.write 0 source]

/-- A file that is not too large can be created on any disk, and written at once. -/
theorem oneFile_succeeds (world : World) {source : List Byte} (some : 0 < source.length)
    (fits : source.length ≤ maxFileSize) :
    ∃ started session i sector, Session.format world = .some started ∧
      EveryStep Session.step (fun session call => call.Orderly session) started (oneFile source) ∧
      replay Session.step started (oneFile source) = .some session ∧
      OneFile session source i sector := by
  -- The file is there and open, without any sector.
  obtain ⟨started, middle, i, sector, formats, every, ran, opened⟩ := newFile_succeeds world
  have new := opened.new
  have there : middle.handles[0]? = .some ⟨⟨headerAt middle.disk sector, 0⟩, true⟩ := by
    rw [opened.handles]
    rfl
  -- The file is written from its start, with sectors enough for it.
  -- It has no room yet.
  have capacity : (headerAt middle.disk sector).capacity = 0 := by
    rw [new.ready.laid.capacity, new.nsectors]
    rfl
  -- The sectors it wants are those of its bytes.
  have wanted : OpenFile.wantedFor (headerAt middle.disk sector) (0 + source.length) =
      divRoundUp source.length sectorSize := by
    unfold OpenFile.wantedFor
    rw [capacity, Nat.zero_add, Int.sub_zero, Int.toNat_natCast]
  -- They are there, since the file is not too large.
  have affordable : OpenFile.Affordable middle.disk (headerAt middle.disk sector)
      (0 + source.length) := by
    refine ⟨by rwa [Nat.zero_add], ?_⟩
    unfold FileHeader.neededSlots
    rw [wanted, new.nsectors, opened.free]
    unfold FileHeader.usedSlots divRoundUp
    simp only [maxFileSize, numDirect, numInDirect, sectorSize, Int.toNat_zero, Nat.zero_add] at *
    split <;> split <;> omega
  have begins : ((0 : Nat) : Int) ≤ (headerAt middle.disk sector).limit := le_of_eq new.limit.symm
  obtain ⟨session, hdr', fresh, writes, wrote, -, -⟩ :=
    write_succeeds there new.ready rfl some begins affordable
  have step : middle.step (.write 0 source) = .some session := congrArg _ writes
  -- The call is orderly: the handle is fresh, and the write succeeds.
  have orderly : (Call.write 0 source).Orderly middle := by
    refine ⟨fun held also => ?_, fun result after also => ?_⟩
    · rw [there] at also
      cases also
      exact ⟨rfl, new.type⟩
    · rw [writes] at also
      cases also
      rfl
  -- The write changes no directory, and no kind of a file.
  have sound := opened.accounted.inOrder.sound
  have isFile : IsFile middle.disk sector := by
    have current := opened.accounted.current _ (List.mem_of_getElem? there) rfl
    have isFile := current.isFile new.type sound
    rwa [opened.self] at isFile
  -- The root is as it was.
  have table := wrote.dirAt_other sound isFile .root
  -- The header is the one that was written.
  have header := wrote.header_self sound isFile.isHeader
  refine ⟨started, session, i, sector, formats, every.append ran (.cons step orderly trivial), ?_,
    opened.accounted.step orderly step, ?_, ?_, ?_, ?_, ?_⟩
  · rw [oneFile, replay_append ran, replay_cons step]
    rfl
  · -- The path leads there still.
    exact opened.leads.congr .root (fun s => wrote.dirAt_other sound isFile)
      (fun s => wrote.type_same sound isFile)
  · -- The entry of the name is the same.
    rw [table]
    exact opened.named
  · rw [table]
    exact opened.entry
  · -- The kind of the file has not changed.
    rw [header, wrote.grew.type]
    exact new.type
  · -- It has the sectors that its bytes take.
    rw [header, wrote.grew.nsectors, wanted, new.nsectors, Int.zero_add]

end Session

/-- After every call of an orderly run, each sector has at most one owner and is marked if it has. -/
theorem sectors_owned {world : World} {started session : Session} {calls : List Call}
    (formats : Session.format world = some started)
    (orderly : EveryStep Session.step (fun session call => call.Orderly session) started calls)
    (ran : replay Session.step started calls = some session) :
    (∀ owner other sector, Owns session.disk owner sector → Owns session.disk other sector →
        owner = other) ∧
      ∀ sector < numSectors, (freeMapOn session.disk).bit sector = true ↔
        ∃ owner, Owns session.disk owner sector := by
  -- The accounts are kept by every step of the run.
  have accounted : session.Accounted := replay_guarded
    (fun _ _ _ accounted orderly stepped => Session.Accounted.step accounted orderly stepped)
    (Session.Accounted.formatted formats) orderly ran
  have sound := accounted.inOrder.sound
  refine ⟨sound.unshared, fun sector inside => ⟨fun marked => ?_, fun ⟨owner, owns⟩ => ?_⟩⟩
  · -- What is marked has an owner.
    exact accounted.exactly sector ⟨by omega, by exact_mod_cast inside⟩ marked
  · -- What has an owner is marked.
    exact (sound.marked owner sector owns).2

/-- A file of 3300 bytes is created on a disk of zeros and written, and every sector is accounted for. -/
theorem sectors_owned_oneFile : ∃ started session,
    Session.format (World.ofDisk fun _ => .ofBytes []) = some started ∧
      replay Session.step started (Session.oneFile (.replicate 3300 7)) = some session ∧
      (∀ owner other sector, Owns session.disk owner sector → Owns session.disk other sector →
        owner = other) ∧
      ∀ sector < numSectors, (freeMapOn session.disk).bit sector = true ↔
        ∃ owner, Owns session.disk owner sector := by
  -- The file is large enough to need an index sector.
  obtain ⟨started, session, i, sector, formats, orderly, ran, -⟩ :=
    Session.oneFile_succeeds (World.ofDisk fun _ => .ofBytes [])
      (show 0 < (List.replicate 3300 (7 : Byte)).length by rw [List.length_replicate]; decide)
      (by rw [List.length_replicate]; decide)
  exact ⟨started, session, formats, ran, sectors_owned formats orderly ran⟩

end Nachos
