import Nachos.Filesys.Restart
import Nachos.Proofs.Filesys.SectorOwnership

/-! A restart changes nothing: what is kept in memory is what is on the disk. -/

namespace Nachos

section Seeks

/-- No write moves a handle. -/
theorem OpenFile.returns_writeAtNested (depth : Nat) (file : OpenFile) (source : List Byte)
    (position : Int) : Program.Returns (fun given => given.2.seekPosition = file.seekPosition)
      (writeAtNested depth file source position) := by
  cases depth with
  | zero => exact trivial
  | succ depth =>
    unfold writeAtNested
    split
    · exact rfl
    · exact .bind fun _ => .bind fun _ => .bind fun _ => rfl

/-- The map is written back by a handle that does not move. -/
theorem PersistentBitmap.returns_writeBack (map : PersistentBitmap) (file : OpenFile) :
    Program.Returns (fun given => given.seekPosition = file.seekPosition) (map.writeBack file) :=
  (OpenFile.returns_writeAtNested 2 file map.bytes 0).bind_of fun _ same => same

/-- A directory is written back by a handle that does not move. -/
theorem Directory.returns_writeBack (dir : Directory) (file : OpenFile) :
    Program.Returns (fun given => given.seekPosition = file.seekPosition) (dir.writeBack file) :=
  (OpenFile.returns_writeAtNested 2 file _ 0).bind_of fun given first =>
    (OpenFile.returns_writeAtNested 2 given.2 _ 4).bind_of fun _ second => second.trans first

/-- A file is opened at its start. -/
theorem OpenFile.returns_new (sector : Int) :
    Program.Returns (fun file : OpenFile => file.seekPosition = 0) (OpenFile.new sector) :=
  .bind fun _ => rfl

/-- Both handles of a file system are at the start of their files. -/
def FileSystem.AtStart (fs : FileSystem) : Prop :=
  fs.freeMapFile.seekPosition = 0 ∧ fs.directoryFile.seekPosition = 0

/-- Formatting leaves both handles at the start. -/
theorem FileSystem.returns_format : Program.Returns AtStart format := by
  unfold format
  -- The headers are made and written first, and then the two files are opened.
  generalize Bitmap.new numSectors = freeMap
  dsimp only
  iterate 13 refine Program.Returns.bind fun _ => ?_
  refine (OpenFile.returns_new _).bind_of fun freeMapFile first => ?_
  refine (OpenFile.returns_new _).bind_of fun directoryFile second => ?_
  refine (PersistentBitmap.returns_writeBack _ freeMapFile).bind_of fun _ kept => ?_
  refine (Directory.returns_writeBack _ directoryFile).bind_of fun _ kept' => ?_
  exact ⟨kept.trans first, kept'.trans second⟩

end Seeks

/-- What the file system keeps in memory is what mounting would read, and takes no time to read. -/
theorem FileSystem.mount_run {world : World} {fs : FileSystem} (mounted : fs.Mounted world.disk)
    (start : fs.AtStart) : mount.run World.serve world = some (fs, world) := by
  obtain ⟨⟨mapHdr, mapSeek⟩, ⟨dirHdr, dirSeek⟩⟩ := fs
  obtain ⟨map, dir⟩ := mounted
  obtain ⟨rfl, rfl⟩ := start
  dsimp only at map dir
  subst map dir
  -- A header is read without anything else.
  have read : ∀ sector, OnDisk sector →
      (OpenFile.new sector).run World.serve world = some (⟨headerAt world.disk sector, 0⟩, world) := by
    intro sector onDisk
    simp only [OpenFile.new, FileHeader.fetchFrom, Fs.readSector, Program.run_bind, Program.run_ask,
      World.serve, Disk.readRequest, if_pos onDisk]
    rfl
  -- Two headers are read, those of the map and of the root.
  unfold mount
  simp only [Program.run_bind, read _ (show OnDisk freeMapSector by decide),
    read _ (show OnDisk directorySector by decide), Option.bind_some]
  rfl

namespace Session

variable {session after : Session}

/-- Reading the pipe changes nothing. -/
theorem readPipe_idle (stepped : session.pipeStep .readPipe = some after) : Idle session after := by
  obtain ⟨⟨value, next⟩, performed, rfl⟩ := Option.map_eq_some_iff.mp stepped
  obtain ⟨⟨given, world⟩, ran, same⟩ := Option.map_eq_some_iff.mp performed
  cases same
  have reads : Program.Asks KernelRequest.Harmless FileSystem.readPipe :=
    Program.Asks.bind ⟨trivial, fun _ => trivial⟩ fun hdr =>
      Program.Asks.bind ⟨trivial, fun _ => trivial⟩ fun pipefile =>
        OpenFile.asks_readAt pipefile _ _
  exact ⟨Fs.disk_kept reads ran, rfl, rfl⟩

/-- What a write to the pipe can do: nothing, or write all of its bytes at the start. -/
theorem writePipe_cases (sound : Sound session.disk) (isFile : IsFile session.disk pipeSector)
    {data : List Byte} (stepped : session.pipeStep (.writePipe data) = some after) :
    after.fs = session.fs ∧ after.handles = session.handles ∧
      (after.disk = session.disk ∨ ∃ hdr' fresh, OpenFile.Wrote session.disk after.disk
        (headerAt session.disk pipeSector) hdr' data 0 fresh) := by
  obtain ⟨⟨value, next⟩, performed, rfl⟩ := Option.map_eq_some_iff.mp stepped
  obtain ⟨⟨given, world⟩, ran, same⟩ := Option.map_eq_some_iff.mp performed
  cases same
  refine ⟨rfl, rfl, ?_⟩
  -- The handle is opened for this write, so it has the header that is on the disk.
  unfold FileSystem.writePipe at ran
  rw [Program.run_bind] at ran
  obtain ⟨⟨pipefile, middle⟩, opens, ran⟩ := Option.bind_eq_some_iff.mp ran
  obtain ⟨rfl, seen⟩ := (OpenFile.new_reads (show OnDisk pipeSector by decide)).holds rfl opens
  dsimp only at ran
  -- The bytes are written through the handle.
  rw [Program.run_bind] at ran
  obtain ⟨⟨given, final⟩, writes, ran⟩ := Option.bind_eq_some_iff.mp ran
  cases ran
  rcases OpenFile.writeAt_cases (isFile.ready sound) seen writes with ⟨-, disk⟩ |
    ⟨start, hdr', fresh, place, -, -, -, wrote⟩
  · -- Nothing has been written.
    exact .inl disk
  · -- The only place for them is the start.
    obtain rfl : start = 0 := by omega
    exact .inr ⟨hdr', fresh, wrote⟩

end Session

/-- A call of an orderly run. Reading the pipe and writing to it are always allowed. -/
def PipeCall.Orderly (session : Session) : PipeCall → Prop
  | .call made => made.Orderly session
  | .readPipe | .writePipe _ => True

namespace Session

/-- The accounts are in order, the pipe is no directory, and the file system is the given one. -/
structure Steady (fs : FileSystem) (session : Session) : Prop where
  accounted : Accounted session
  pipe : (headerAt session.disk pipeSector).type ≠ .dir
  fs : session.fs = fs

variable {fs : FileSystem} {session after : Session}

/-- The pipe is a file that can be written. -/
theorem Steady.isFile (steady : Steady fs session) : IsFile session.disk pipeSector :=
  ⟨.fixed .pipe, by decide, steady.pipe⟩

/-- A call that leaves the disk and the file system alone keeps everything as it is. -/
theorem Steady.idle (steady : Steady fs session) (idle : Idle session after) : Steady fs after :=
  ⟨steady.accounted.idle idle, idle.disk ▸ steady.pipe, idle.fs.trans steady.fs⟩

/-- Each orderly call of the file system keeps everything in order. -/
theorem Steady.call (steady : Steady fs session) {call : Call} (orderly : call.Orderly session)
    (stepped : session.step call = some after) : Steady fs after := by
  have accounted := steady.accounted
  have sound := accounted.inOrder.sound
  have pipe : IsHeader session.disk pipeSector := .fixed .pipe
  have still := accounted.step orderly stepped
  obtain ⟨result, success, did⟩ := accounted.did orderly stepped
  -- The pipe is only at risk where a header or a table is written.
  cases did with
  -- A call that leaves the disk leaves the pipe.
  | idle idle => exact steady.idle idle
  -- Creating writes no header that exists.
  | created created =>
    obtain ⟨⟨parent, last, i, sector, fresh, found, created⟩, same, -⟩ := created
    refine ⟨still, ?_, same.trans steady.fs⟩
    rw [((created.changedAt sound found).part pipe).1]
    exact steady.pipe
  -- No call of an orderly run is tight.
  | tight => cases success
  -- Opening does not write.
  | opened _ _ disk same _ => exact ⟨still, disk ▸ steady.pipe, same.trans steady.fs⟩
  -- Writing through a handle changes no kind of a file.
  | @wrote _ _ _ held _ writes there wrote =>
    obtain ⟨flag, type⟩ := orderly_writes orderly writes there
    have current := accounted.current held (List.mem_of_getElem? there) flag
    obtain ⟨start, fresh, wrote'⟩ := wrote.wrote
    rw [← current.header] at wrote'
    refine ⟨still, ?_, wrote.fs.trans steady.fs⟩
    rw [wrote'.type_same sound (current.isFile type sound) pipe]
    exact steady.pipe
  -- Removals are not orderly.
  | removed => exact orderly.1.elim

/-- Writing to the pipe keeps everything in order. -/
theorem Steady.writePipe (steady : Steady fs session) {data : List Byte}
    (stepped : session.pipeStep (.writePipe data) = some after) : Steady fs after := by
  have accounted := steady.accounted
  have sound := accounted.inOrder.sound
  have isFile := steady.isFile
  obtain ⟨same, handles, disk | ⟨hdr', fresh, wrote⟩⟩ := writePipe_cases sound isFile stepped
  · -- Nothing was written.
    exact steady.idle ⟨disk, same, congrArg (List.map known) handles⟩
  · -- The pipe has been written, and is still one.
    have pipe : IsHeader session.disk pipeSector := .fixed .pipe
    refine ⟨⟨⟨wrote.stillSound sound isFile, ?_⟩, wrote.stillExact sound isFile accounted.exactly,
      fun held member flag => ?_⟩, ?_, same.trans steady.fs⟩
    · exact same ▸ wrote.stillMounted sound isFile accounted.inOrder.mounted
    · -- A handle is of a file that a directory names, and none of them names the pipe.
      have current := accounted.current held (handles ▸ member) flag
      refine current_kept wrote sound isFile current fun same => ?_
      obtain ⟨directory, i, found, entry⟩ := current.named
      cases sound.unshared _ _ _ (.fixed (same ▸ .pipe)) (.entry found entry)
    · -- The header on the disk is still that of the pipe.
      rw [wrote.type_same sound isFile pipe]
      exact steady.pipe

/-- Each step of an orderly run keeps everything in order. -/
theorem Steady.step (steady : Steady fs session) {call : PipeCall} (orderly : call.Orderly session)
    (stepped : session.pipeStep call = some after) : Steady fs after := by
  cases call with
  | call made => exact steady.call orderly stepped
  | readPipe => exact steady.idle (readPipe_idle stepped)
  | writePipe data => exact steady.writePipe stepped

/-- Everything is in order on a disk that has just been formatted, and the handles are at the start. -/
theorem Steady.formatted {world : World} {started : Session}
    (formats : Session.format world = some started) :
    Steady started.fs started ∧ started.fs.AtStart := by
  have accounted := Accounted.formatted formats
  obtain ⟨⟨-, -, -, pipe⟩, -⟩ := Session.formatted formats
  obtain ⟨⟨fs, final⟩, ran, rfl⟩ := Option.map_eq_some_iff.mp formats
  exact ⟨⟨accounted, by rw [pipe]; decide, rfl⟩, FileSystem.returns_format.holds ran⟩

end Session

section Alike

variable {State Other : Type} {handler : Program.Handler KernelRequest KernelRequest.Answer State}
  {abstract : Program.Handler KernelRequest KernelRequest.Answer Other}
  {relation : State → Other → Prop} {count : Nat} {system : System State} {twin : System Other}

/-- Two machines that differ in what was opened before, so many files on the first of them. -/
structure Alike (relation : State → Other → Prop) (count : Nat) (system : System State)
    (twin : System Other) : Prop where
  world : relation system.world twin.world
  fs : system.fs = twin.fs
  files : ∃ before, before.length = count ∧ system.files = before ++ twin.files

/-- The same answer, and machines that still differ in nothing else. -/
def AlikeAfter (relation : State → Other → Prop) (count : Nat) {α : Type}
    (given : α × System State) (other : α × System Other) : Prop :=
  given.1 = other.1 ∧ Alike relation count given.2 other.2

/-- Every operation does the same on both machines. -/
theorem Alike.perform (alike : Alike relation count system twin)
    (simulates : Program.Simulates relation handler abstract) {α : Type} (operation : Fs α) :
    Option.Rel (AlikeAfter relation count) (system.perform handler operation)
      (twin.perform abstract operation) := by
  have related := Program.run_related simulates operation system.world twin.world alike.world
  unfold System.perform
  -- Both stop, or both end with the same value and related worlds.
  cases ran : operation.run handler system.world with
  -- The one stops, and so must the other.
  | none =>
    cases also : operation.run abstract twin.world with
    | none => exact .none
    | some other => simp [Program.Related, ran, also] at related
  -- The one ends, and so must the other.
  | some given =>
    cases also : operation.run abstract twin.world with
    | none => simp [Program.Related, ran, also] at related
    | some other =>
      simp only [Program.Related, ran, also] at related
      exact .some ⟨related.1, related.2, alike.fs, alike.files⟩

/-- A file that has been opened later is the same on both machines. -/
theorem Alike.file (alike : Alike relation count system twin) (handle : Nat) :
    Option.Rel Eq system.files[count + handle]? twin.files[handle]? := by
  obtain ⟨before, rfl, files⟩ := alike.files
  rw [files, List.getElem?_append_right (Nat.le_add_right _ _), Nat.add_sub_cancel_left]
  cases twin.files[handle]? with
  | none => exact .none
  | some file => exact .some rfl

/-- Both machines stay alike when the same file is used on them. -/
theorem Alike.set (alike : Alike relation count system twin) (handle : Nat) (file : OpenFile) :
    Alike relation count { system with files := system.files.set (count + handle) file }
      { twin with files := twin.files.set handle file } := by
  obtain ⟨before, rfl, files⟩ := alike.files
  refine ⟨alike.world, alike.fs, before, rfl, ?_⟩
  dsimp only
  rw [files, List.set_append_right _ _ (Nat.le_add_right _ _), Nat.add_sub_cancel_left]

/-- A call that gives back a success and the file system does the same on both machines. -/
theorem Alike.changes (alike : Alike relation count system twin)
    (simulates : Program.Simulates relation handler abstract) (operation : Fs (Bool × FileSystem)) :
    Option.Rel (AlikeAfter relation count)
      ((system.perform handler operation).bind fun given =>
        some ((⟨if given.1.1 then 1 else 0, []⟩ : Answer), { given.2 with fs := given.1.2 }))
      ((twin.perform abstract operation).bind fun given =>
        some ((⟨if given.1.1 then 1 else 0, []⟩ : Answer), { given.2 with fs := given.1.2 })) := by
  refine rel_bind (alike.perform simulates operation) ?_
  rintro ⟨given, system⟩ ⟨_, twin⟩ ⟨rfl, alike⟩
  exact .some ⟨rfl, alike.world, rfl, alike.files⟩

/-- A call that uses a file does the same on both machines. -/
theorem Alike.uses (alike : Alike relation count system twin)
    (simulates : Program.Simulates relation handler abstract) {handle : Nat} {α : Type}
    (operation : OpenFile → Fs (α × OpenFile)) (answer : α → Answer) :
    Option.Rel (AlikeAfter relation count)
      (system.files[count + handle]?.bind fun file =>
        (system.perform handler (operation file)).bind fun given =>
          some (answer given.1.1,
            { given.2 with files := given.2.files.set (count + handle) given.1.2 }))
      (twin.files[handle]?.bind fun file =>
        (twin.perform abstract (operation file)).bind fun given =>
          some (answer given.1.1, { given.2 with files := given.2.files.set handle given.1.2 })) := by
  -- The handles stand for the same file.
  refine rel_bind (alike.file handle) ?_
  rintro file _ rfl
  -- The operation on it is the same.
  refine rel_bind (alike.perform simulates (operation file)) ?_
  rintro ⟨given, system⟩ ⟨_, twin⟩ ⟨rfl, alike⟩
  exact .some ⟨rfl, alike.set handle given.2⟩

/-- A call that only reads does the same on both machines. -/
theorem Alike.reads (alike : Alike relation count system twin)
    (simulates : Program.Simulates relation handler abstract) {α : Type} (operation : Fs α)
    (answer : α → Answer) :
    Option.Rel (AlikeAfter relation count)
      ((system.perform handler operation).bind fun given => some (answer given.1, given.2))
      ((twin.perform abstract operation).bind fun given => some (answer given.1, given.2)) := by
  refine rel_bind (alike.perform simulates operation) ?_
  rintro ⟨given, system⟩ ⟨_, twin⟩ ⟨rfl, alike⟩
  exact .some ⟨rfl, alike⟩

/-- Every call gives the same on both machines. -/
theorem Alike.use (alike : Alike relation count system twin)
    (simulates : Program.Simulates relation handler abstract) (call : PipeCall) :
    Option.Rel (AlikeAfter relation count) (system.use handler (call.shift count))
      (twin.use abstract call) := by
  have fs := alike.fs
  cases call with
  -- The pipe is read.
  | readPipe => exact alike.reads simulates _ fun into => ⟨into.length, into⟩
  -- The pipe is written.
  | writePipe data => exact alike.reads simulates _ fun _ => ⟨0, []⟩
  | call made =>
    cases made with
    -- Creating goes by the file system alone.
    | create name type =>
      unfold PipeCall.shift System.use
      rw [fs]
      exact alike.changes simulates _
    -- So does removing.
    | remove name =>
      unfold PipeCall.shift System.use
      rw [fs]
      exact alike.changes simulates _
    -- Opening adds a handle on both.
    | «open» name =>
      unfold PipeCall.shift System.use
      rw [fs]
      refine rel_bind (alike.perform simulates _) ?_
      rintro ⟨found, system⟩ ⟨_, twin⟩ ⟨rfl, alike⟩
      obtain ⟨before, long, files⟩ := alike.files
      cases found with
      | none => exact .some ⟨rfl, alike⟩
      | some file =>
        -- The new file comes after all that were opened before, on either machine.
        refine .some ⟨rfl, alike.world, alike.fs, before, long, ?_⟩
        dsimp only
        rw [files, List.append_assoc]
    -- A seek moves one handle.
    | seek handle position =>
      refine rel_bind (alike.file handle) ?_
      rintro file _ rfl
      exact .some ⟨rfl, alike.set handle (file.seek position)⟩
    -- Reading and writing use one file and put it back.
    | read handle numBytes =>
      exact alike.uses simulates (fun file => file.read numBytes) fun into => ⟨into.length, into⟩
    -- A read at a position leaves the handle.
    | readAt handle numBytes position =>
      refine rel_bind (alike.file handle) ?_
      rintro file _ rfl
      exact alike.reads simulates _ fun into => ⟨into.length, into⟩
    | write handle source =>
      exact alike.uses simulates (fun file => file.write source) fun result => ⟨result, []⟩
    | writeAt handle source position =>
      exact alike.uses simulates (fun file => file.writeAt source position) fun result => ⟨result, []⟩

/-- Every sequence of calls gives the same answers on both machines. -/
theorem Alike.answers (simulates : Program.Simulates relation handler abstract)
    (calls : List PipeCall) : ∀ {system : System State} {twin : System Other},
      Alike relation count system twin →
        system.answers handler (calls.map (PipeCall.shift count)) = twin.answers abstract calls := by
  -- Over the calls: both stop, or both answer the same and stay alike.
  induction calls with
  | nil => exact fun _ => rfl
  | cons call rest ih =>
    intro system twin alike
    have used := alike.use simulates call
    rw [List.map_cons, System.answers, System.answers]
    cases first : system.use handler (call.shift count) with
    | none =>
      rw [first] at used
      -- Both have stopped at this call.
      cases second : twin.use abstract call with
      | none => rfl
      | some other =>
        rw [second] at used
        cases used
    | some given =>
      rw [first] at used
      -- One of them cannot stop alone.
      cases second : twin.use abstract call with
      | none =>
        rw [second] at used
        cases used
      | some other =>
        rw [second] at used
        cases used with
        -- The answers are the same, and the rest is by induction.
        | some same =>
          obtain ⟨answer, alike⟩ := same
          simp only [answer, ih alike]

/-- Without files that were opened before, every call has its own number. -/
theorem PipeCall.shift_zero (call : PipeCall) : call.shift 0 = call := by
  cases call with
  | call made => cases made <;> simp only [shift, Nat.zero_add]
  | _ => rfl

end Alike

/-- After any orderly run, a machine gives the same answers whether or not it is restarted. -/
theorem restart_changesNothing {world : World} {started session : Session} {calls : List PipeCall}
    (formats : Session.format world = some started)
    (orderly : EveryStep Session.pipeStep (fun session call => call.Orderly session) started calls)
    (ran : replay Session.pipeStep started calls = some session) {running : CachedWorld}
    (coherent : running.synchDisk.Coherent) (same : running.synchDisk.disk = session.disk)
    (uninitialised : Vector DiskCacheEntry diskCacheSize) :
    ∃ restarted, running.restart uninitialised = some restarted ∧ ∀ later,
      restarted.answers CachedWorld.serve later = (session.cached running).answers CachedWorld.serve
        (later.map (PipeCall.shift session.handles.length)) := by
  -- The run leaves everything in order.
  obtain ⟨steady, start⟩ := Session.Steady.formatted formats
  have steady : Session.Steady started.fs session := replay_guarded
    (fun _ _ _ steady orderly stepped => Session.Steady.step steady orderly stepped) steady orderly ran
  -- Without a cache, the restarted machine is the one that runs, with no file opened before.
  let plain : World := ⟨session.disk, running.surroundings, running.asked⟩
  have mounts : FileSystem.mount.run World.serve plain = some (session.fs, plain) :=
    FileSystem.mount_run steady.accounted.inOrder.mounted (steady.fs ▸ start)
  let fresh : CachedWorld :=
    { running with synchDisk := SynchDisk.new running.synchDisk.disk uninitialised }
  -- An empty cache is coherent.
  have cold : fresh.synchDisk.Coherent := SynchDisk.coherent_new _ uninitialised
  have related := Program.run_related CachedWorld.serve_simulates FileSystem.mount fresh plain
    ⟨cold, same, rfl, rfl⟩
  rw [mounts] at related
  -- The restart goes through, as the mount does on the plain machine.
  cases restarts : FileSystem.mount.run CachedWorld.serve fresh with
  | none =>
    rw [restarts] at related
    exact related.elim
  | some ended =>
    rw [restarts] at related
    obtain ⟨fs, final⟩ := ended
    obtain ⟨rfl, matches'⟩ := related
    refine ⟨⟨final, session.fs, []⟩, ?_, fun later => ?_⟩
    · unfold CachedWorld.restart
      dsimp only
      rw [restarts]
      rfl
    · -- Restarted, it is like the plain machine with no file opened.
      have first : Alike CachedWorld.Matches 0 ⟨final, session.fs, []⟩ ⟨plain, session.fs, []⟩ :=
        ⟨matches', rfl, [], rfl, rfl⟩
      -- Running on, it is like that machine with its files in front.
      have second : Alike CachedWorld.Matches session.handles.length (session.cached running)
          ⟨plain, session.fs, []⟩ :=
        ⟨⟨coherent, same, rfl, rfl⟩, rfl, session.handles.map Handle.file, List.length_map .., by
          simp [Session.cached]⟩
      have unshifted : later.map (PipeCall.shift 0) = later := by
        rw [List.map_congr_left fun call _ => PipeCall.shift_zero call, List.map_id']
      -- Both answer as the plain machine does.
      rw [second.answers CachedWorld.serve_simulates, ← first.answers CachedWorld.serve_simulates,
        unshifted]

/-- A cache with nothing in it. -/
abbrev coldCache : Vector DiskCacheEntry diskCacheSize := .replicate _ ⟨0, 0, 0, 0, .ofBytes []⟩

/-- A machine with an empty cache in front of a disk. -/
def CachedWorld.ofDisk (disk : Disk) : CachedWorld :=
  ⟨.new disk coldCache, ⟨fun _ _ => 0, fun _ => 0⟩, 0⟩

/-- A file is created and opened, and after a restart it is opened again, written and read. -/
theorem restart_changesNothing_newFile : ∃ started session restarted,
    Session.format (World.ofDisk fun _ => .ofBytes []) = some started ∧
      replay Session.pipeStep started (Session.newFile.map .call) = some session ∧
      (CachedWorld.ofDisk session.disk).restart coldCache = some restarted ∧
      restarted.answers CachedWorld.serve
          [.call (.«open» [97]), .call (.write 0 [7]), .readPipe, .call (.readAt 0 1 0)] =
        (session.cached (.ofDisk session.disk)).answers CachedWorld.serve
          [.call (.«open» [97]), .call (.write 1 [7]), .readPipe, .call (.readAt 1 1 0)] := by
  -- A file is created and opened.
  obtain ⟨started, session, i, sector, formats, orderly, ran, opened⟩ :=
    Session.newFile_succeeds (World.ofDisk fun _ => .ofBytes [])
  have ran' : replay Session.pipeStep started (Session.newFile.map .call) = some session := by
    rw [replay_map]
    exact ran
  have orderly' : EveryStep Session.pipeStep (fun session call => call.Orderly session) started
      (Session.newFile.map .call) := .map _ _ orderly
  -- The cache starts cold.
  have cold : (CachedWorld.ofDisk session.disk).synchDisk.Coherent :=
    SynchDisk.coherent_new _ _
  obtain ⟨restarted, restarts, same⟩ :=
    restart_changesNothing formats orderly' ran' cold rfl coldCache
  -- One file is open before the restart, so that handles are one lower after it.
  have one : session.handles.length = 1 := by
    rw [opened.handles]
    rfl
  refine ⟨started, session, restarted, formats, ran', restarts, ?_⟩
  -- The calls after the restart use the first handle.
  have here := same [.call (.«open» [97]), .call (.write 0 [7]), .readPipe, .call (.readAt 0 1 0)]
  rw [one] at here
  exact here

end Nachos
