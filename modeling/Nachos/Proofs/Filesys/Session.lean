import Nachos.Filesys.Session
import Nachos.Proofs.Filesys.Format

/-! What each call of the file system can do on a sound disk. -/

namespace Nachos

/-- Does the request write to no sectors but some? -/
def KernelRequest.WritesIn (sectors : Int → Prop) : KernelRequest → Prop
  | .writeSector sectorNumber _ => sectors sectorNumber
  | _ => True

/-- Does the request leave the disk alone? -/
def KernelRequest.Harmless : KernelRequest → Prop
  | .writeSector _ _ => False
  | _ => True

namespace Fs

variable {α β : Type} {program : Fs α}

/-- A sector that a program does not write to is as it was. -/
theorem sector_kept {sectors : Int → Prop}
    (asks : Program.Asks (KernelRequest.WritesIn sectors) program) {world final : World} {value : α}
    (ran : program.run World.serve world = some (value, final)) {s : Int} (other : ¬ sectors s) :
    final.disk s = world.disk s := by
  refine @Program.Asks.kept _ _ _ _ _ _ _ _ (fun world => world.disk s) asks
    (fun question writes state answered served => ?_) _ _ _ ran
  -- Only a write gives the machine another disk.
  cases question with
  -- A read leaves the disk.
  | readSector sectorNumber =>
    obtain ⟨data, -, rfl⟩ := Option.map_eq_some_iff.mp
      (show (state.disk.readRequest sectorNumber).map (·, state) = some answered from by
        rw [← served]
        cases read : state.disk.readRequest sectorNumber <;> simp [World.serve, read])
    rfl
  -- A write changes its own sector only, which is one of those that are allowed.
  | writeSector sectorNumber data =>
    obtain ⟨disk, wrote, same⟩ := Option.bind_eq_some_iff.mp served
    cases same
    unfold Disk.writeRequest at wrote
    split at wrote
    · cases wrote
      refine Function.update_of_ne (fun here => other ?_) _ _
      rw [here]
      exact writes
    · cases wrote
  -- The other two requests are not to the disk.
  | allocate numBytes =>
    cases served
    rfl
  | totalTicks =>
    cases served
    rfl

/-- A harmless request writes nowhere. -/
theorem harmless_writesIn {sectors : Int → Prop} (question : KernelRequest)
    (harmless : question.Harmless) : question.WritesIn sectors := by
  cases question with
  | writeSector sectorNumber data => exact harmless.elim
  | _ => exact trivial

/-- A program that leaves the disk alone leaves it as it is. -/
theorem disk_kept (asks : Program.Asks KernelRequest.Harmless program) {world final : World}
    {value : α} (ran : program.run World.serve world = some (value, final)) :
    final.disk = world.disk := by
  have nowhere : Program.Asks (KernelRequest.WritesIn fun _ => False) program :=
    asks.mono harmless_writesIn
  exact funext fun s => sector_kept nowhere ran not_false

/-- A check asks for nothing. -/
theorem asks_assert (condition : Bool) :
    Program.Asks KernelRequest.Harmless (Program.assert condition : Fs Unit) := by
  cases condition
  · exact trivial
  · exact trivial

/-- Reading a sector leaves the disk alone. -/
theorem asks_readSector (sectorNumber : Int) :
    Program.Asks KernelRequest.Harmless (readSector sectorNumber) :=
  ⟨trivial, fun _ => trivial⟩

end Fs

namespace OpenFile

/-- Finding the sector of a byte leaves the disk alone. -/
theorem asks_byteToSector (hdr : FileHeader) (offset : Nat) :
    Program.Asks KernelRequest.Harmless (hdr.byteToSector offset) := by
  unfold FileHeader.byteToSector
  dsimp only
  split
  · exact (Fs.asks_assert _).bind fun _ => trivial
  · refine (Fs.asks_assert _).bind fun _ => ?_
    refine Program.Asks.bind ((Fs.asks_readSector _).bind fun _ => trivial) fun inDirect => ?_
    exact (Fs.asks_assert _).bind fun _ => (Fs.asks_assert _).bind fun _ => trivial

/-- Reading some sectors of a file leaves the disk alone. -/
theorem asks_readSectors (hdr : FileHeader) (count : Nat) : ∀ firstSector,
    Program.Asks KernelRequest.Harmless (readSectors hdr firstSector count) := by
  induction count with
  | zero => exact fun _ => trivial
  | succ count ih =>
    intro firstSector
    unfold readSectors
    refine (asks_byteToSector hdr _).bind fun sector => ?_
    exact (Fs.asks_readSector sector).bind fun data => (ih _).bind fun _ => trivial

/-- `ReadAt` leaves the disk alone, whatever the handle says of the file. -/
theorem asks_readAt (file : OpenFile) (numBytes position : Int) :
    Program.Asks KernelRequest.Harmless (file.readAt numBytes position) := by
  unfold readAt
  dsimp only
  split
  · exact trivial
  · refine Program.Asks.bind ((Fs.asks_assert _).bind fun _ => trivial) fun past => ?_
    exact (asks_readSectors file.hdr _ _).bind fun _ => trivial

section Runs

variable {file given : OpenFile} {world final : World}

/-- `Read` leaves the disk alone, and changes only where the open file is. -/
theorem read_run {numBytes : Int} {into : List Byte}
    (ran : (file.read numBytes).run World.serve world = some ((into, given), final)) :
    final.disk = world.disk ∧ given.hdr = file.hdr := by
  have asks : Program.Asks KernelRequest.Harmless (file.read numBytes) :=
    (asks_readAt file numBytes file.seekPosition).bind fun _ => trivial
  have returns : Program.Returns (fun result => result.2.hdr = file.hdr) (file.read numBytes) :=
    .bind fun _ => rfl
  exact ⟨Fs.disk_kept asks ran, returns.holds ran⟩

/-- `Write` is `WriteAt` where the open file is, which moves on by what was written. -/
theorem write_run {source : List Byte} {result : Int}
    (ran : (file.write source).run World.serve world = some ((result, given), final)) :
    ∃ wrote : OpenFile, (file.writeAt source file.seekPosition).run World.serve world =
        some ((result, wrote), final) ∧
      given = { wrote with seekPosition := wrote.seekPosition + result } := by
  unfold write at ran
  rw [Program.run_bind] at ran
  obtain ⟨⟨⟨written, wrote⟩, between⟩, first, last⟩ := Option.bind_eq_some_iff.mp ran
  cases last
  exact ⟨wrote, first, rfl⟩

end Runs

end OpenFile

section Calls

variable {disk : Disk} {fs : FileSystem} {path last : List Byte} {parent : Int}

/-- A path without components makes `namex` follow a null pointer. -/
theorem Directory.namex_refuses (dir : Directory) (none : skipelem path = none)
    (nameparent : Bool) : Fs.Refuses disk (dir.namex path nameparent) := by
  intro world _
  unfold namex namexWithin
  rw [none]
  rfl

/-- `Find` does not return from it, and nor do `Add` and `Remove`. -/
theorem Directory.find_refuses (dir : Directory) (none : skipelem path = none) :
    Fs.Refuses disk (dir.find path) ∧
      ∀ change, Fs.Refuses disk (dir.changeParent path change) :=
  ⟨(dir.namex_refuses none false).bind_first, fun _ => (dir.namex_refuses none true).bind_first⟩

/-- A path with a component names a header, or `Find` finds nothing. -/
theorem Readable.find_cases (readable : Readable disk)
    (component : (Directory.skipelem path).isSome = true) :
    (∃ parent last i, Leads disk directorySector path parent last ∧
        (dirAt disk parent).findIndex last = some i) ∨
      Fs.Reads disk ((dirAt disk directorySector).find path) (-1) := by
  rcases Directory.namex_reads readable component with ⟨parent, last, leads, -⟩ | ⟨nowhere, -⟩
  swap
  · exact .inr (Directory.find_nowhere readable component nowhere)
  cases search : (dirAt disk parent).findIndex last with
  | some i => exact .inl ⟨parent, last, i, leads, search⟩
  | none =>
    have finds := Directory.find_leads readable leads
    unfold Directory.dirlookup at finds
    rw [search] at finds
    exact .inr finds

namespace FileSystem

/-- No operation on a path without components returns. -/
theorem refuses_of_noComponent (sound : Sound disk) (mounted : fs.Mounted disk)
    (none : Directory.skipelem path = none) (kind : FileType) :
    Fs.Refuses disk (fs.create path kind) ∧ Fs.Refuses disk (fs.«open» path) ∧
      Fs.Refuses disk (fs.remove path) := by
  -- Each of them looks the path up first.
  have reads := rootDirectory_reads sound.readable mounted
  have refuses : Fs.Refuses disk ((dirAt disk directorySector).find path) :=
    (Directory.find_refuses _ none).1
  unfold create FileSystem.«open» remove
  exact ⟨reads.bind_refuses refuses.bind_first, reads.bind_refuses refuses.bind_first,
    reads.bind_refuses refuses.bind_first⟩

/-- A path that is not found is not opened. -/
theorem open_absent (sound : Sound disk) (mounted : fs.Mounted disk)
    (absent : Fs.Reads disk ((dirAt disk directorySector).find path) (-1)) :
    Fs.Reads disk (fs.«open» path) none := by
  unfold FileSystem.«open»
  refine (rootDirectory_reads sound.readable mounted).bind (absent.bind ?_)
  rw [if_neg (by decide)]
  exact Fs.Reads.pure disk _

/-- A path that is not found is not removed, and nothing else happens. -/
theorem remove_absent (sound : Sound disk) (mounted : fs.Mounted disk)
    (absent : Fs.Reads disk ((dirAt disk directorySector).find path) (-1)) :
    Fs.Reads disk (fs.remove path) (false, fs) := by
  unfold FileSystem.remove
  refine (rootDirectory_reads sound.readable mounted).bind (absent.bind ?_)
  rw [if_pos rfl]
  exact Fs.Reads.pure disk _

/-- What `Open` finds: nothing, or the header that a directory names. -/
theorem open_cases (sound : Sound disk) (mounted : fs.Mounted disk)
    (component : (Directory.skipelem path).isSome = true) :
    Fs.Reads disk (fs.«open» path) none ∨ ∃ directory i sector, IsDirectory disk directory ∧
      (holdings disk).entry directory i = some sector ∧
      Fs.Reads disk (fs.«open» path) (some ⟨headerAt disk sector, 0⟩) := by
  -- Either no entry has the name, or the search ends at one that is in use.
  rcases sound.readable.find_cases component with ⟨parent, last, i, leads, search⟩ | absent
  swap
  · exact .inl (open_absent sound mounted absent)
  -- The path leads to a directory with an entry of the name.
  have found := leads.isDirectory .root
  have finds := Directory.find_leads sound.readable leads
  obtain ⟨inside, inUse, -, lookup⟩ := Directory.findIndex_some search
  have entry : (holdings disk).entry parent i = some ((dirAt disk parent).entrySector i) :=
    entry_eq_some.mpr ⟨⟨inside, inUse⟩, rfl⟩
  -- The sector of the entry is a header, so it is on the disk.
  have onDisk := (sound.header_marked (.entry found entry)).1
  rw [lookup] at finds
  refine .inr ⟨parent, i, _, found, entry, ?_⟩
  unfold FileSystem.«open»
  -- The root is opened, and the name is looked up in it.
  refine (rootDirectory_reads sound.readable mounted).bind (finds.bind ?_)
  rw [if_pos onDisk.1]
  -- The header is read into the handle.
  exact (OpenFile.new_reads onDisk).bind (Fs.Reads.pure disk _)

end FileSystem

end Calls

namespace OpenFile

/-- A handle of a file that a directory names, with the header that the file has on the disk. -/
structure Current (disk : Disk) (file : OpenFile) : Prop where
  named : ∃ directory i, IsDirectory disk directory ∧
    (holdings disk).entry directory i = some file.hdr.selfSector
  header : headerAt disk file.hdr.selfSector = file.hdr

variable {disk : Disk} {file : OpenFile} {source : List Byte} {position : Int}

/-- An ordinary file of which a handle is current is one on the disk. -/
theorem Current.isFile (current : Current disk file) (type : file.hdr.type = .file)
    (sound : Sound disk) : IsFile disk file.hdr.selfSector :=
  .ofEntry sound current.named (current.header.symm ▸ type)

/-- A current handle of an ordinary file can be written through. -/
theorem Current.ready (current : Current disk file) (type : file.hdr.type = .file)
    (sound : Sound disk) : Ready disk file.hdr := by
  have ready := (current.isFile type sound).ready sound
  rwa [current.header] at ready

/-- A handle that only moves stays current. -/
theorem Current.moved (current : Current disk file) {file' : OpenFile} (same : file'.hdr = file.hdr) :
    Current disk file' :=
  ⟨same ▸ current.named, same ▸ current.header⟩

/-- `WriteAt` does nothing if it is asked for nothing, or for what lies outside of the file. -/
theorem writeAt_idle (nothing : source.length = 0 ∨ position > file.hdr.limit ∨ position < 0) :
    Fs.Reads disk (file.writeAt source position) (0, file) := by
  unfold writeAt writeAtNested
  rw [if_pos nothing]
  exact Fs.Reads.pure disk _

/-- What `WriteAt` can do on a file that is ready for it, if it returns. -/
theorem writeAt_cases (ready : Ready disk file.hdr) {world final : World} (seen : world.disk = disk)
    {given : Int × OpenFile}
    (ran : (file.writeAt source position).run World.serve world = some (given, final)) :
    (given = (0, file) ∧ final.disk = disk) ∨
      ∃ (start : Nat) (hdr' : FileHeader) (fresh : List Nat), position = start ∧
        0 < source.length ∧ start ≤ file.hdr.limit ∧
        given = ((source.length : Int), { file with hdr := hdr' }) ∧
        Wrote disk final.disk file.hdr hdr' source start fresh := by
  -- Nothing to write, or no place to write it.
  by_cases nothing : source.length = 0 ∨ position > file.hdr.limit ∨ position < 0
  · obtain ⟨rfl, same⟩ := (writeAt_idle nothing).holds seen ran
    exact .inl ⟨rfl, same⟩
  simp only [not_or] at nothing
  obtain ⟨some, within, nonneg⟩ := nothing
  -- The position is a natural number within the file.
  obtain ⟨start, rfl⟩ := Int.eq_ofNat_of_zero_le (Int.not_lt.mp nonneg)
  have started : (start : Int) ≤ file.hdr.limit := Int.not_lt.mp within
  -- A file that cannot be enlarged as far as it takes makes the call abort.
  by_cases affordable : Affordable disk file.hdr (start + source.length)
  · obtain ⟨hdr', fresh, rfl, wrote⟩ :=
      (writeAt_yields ready (Nat.pos_of_ne_zero some) started affordable).holds seen ran
    exact .inr ⟨start, hdr', fresh, rfl, Nat.pos_of_ne_zero some, started, rfl, wrote⟩
  · -- In the other case the call would not have returned.
    have refused := writeAt_refuses ready.laid ready.mapFile ready.ofDisk (Nat.pos_of_ne_zero some)
      started affordable world seen
    rw [ran] at refused
    cases refused

end OpenFile

namespace Session

variable {session after : Session} {α : Type} {operation : Fs α}

/-- What an operation yields holds after it has been performed. -/
theorem perform_holds {post : α → Disk → Prop} (yields : Fs.Yields session.disk operation post)
    {value : α} (ran : session.perform operation = some (value, after)) :
    post value after.disk ∧ after.fs = session.fs ∧ after.handles = session.handles := by
  obtain ⟨⟨given, world⟩, run, same⟩ := Option.map_eq_some_iff.mp ran
  cases same
  exact ⟨yields.holds rfl run, rfl, rfl⟩

/-- An operation that yields something can be performed. -/
theorem perform_yields {post : α → Disk → Prop} (yields : Fs.Yields session.disk operation post) :
    ∃ value after, session.perform operation = some (value, after) ∧ post value after.disk ∧
      after.fs = session.fs ∧ after.handles = session.handles := by
  obtain ⟨value, world, ran, holds⟩ := yields session.world rfl
  exact ⟨value, { session with world }, by unfold perform; rw [ran]; rfl, holds, rfl, rfl⟩

/-- An operation that does not end ends the session. -/
theorem perform_refused (refuses : Fs.Refuses session.disk operation) :
    session.perform operation = none := by
  unfold perform
  rw [refuses session.world rfl]
  rfl

/-- The path of an operation that has ended had a component. -/
theorem component_of_performed {path : List Byte}
    (refuses : Directory.skipelem path = none → Fs.Refuses session.disk operation) {value : α}
    (performed : session.perform operation = some (value, after)) :
    (Directory.skipelem path).isSome = true := by
  cases found : Directory.skipelem path with
  | some _ => rfl
  | none =>
    rw [perform_refused (refuses found)] at performed
    cases performed

/-- What a handle knows of its file, wherever it is in it. -/
def known (held : Handle) : FileHeader × Bool := (held.file.hdr, held.fresh)

/-- A call has left everything as it was, but that a handle may have moved in its file. -/
structure Idle (session after : Session) : Prop where
  disk : after.disk = session.disk
  fs : after.fs = session.fs
  handles : after.handles.map known = session.handles.map known

/-- A handle that has moved knows what it knew. -/
theorem used_known {handle : Nat} {held : Handle} {file : OpenFile}
    (there : session.handles[handle]? = some held) (same : file.hdr = held.file.hdr) :
    (session.used handle file).handles.map known = session.handles.map known := by
  unfold used
  apply List.ext_getElem?
  intro i
  rw [List.getElem?_map, List.getElem?_map, List.getElem?_mapIdx]
  by_cases here : i = handle
  · rw [here, there]
    simp [known, same]
  · cases session.handles[i]? <;> simp [here]

/-- The disk is sound, and the file system has what is on it. -/
structure InOrder (session : Session) : Prop where
  sound : Sound session.disk
  mounted : session.fs.Mounted session.disk

/-- A session in order stays so when nothing changes but the handles. -/
theorem InOrder.congr (inOrder : InOrder session) (disk : after.disk = session.disk)
    (fs : after.fs = session.fs) : InOrder after := by
  refine ⟨?_, ?_⟩
  · rw [disk]
    exact inOrder.sound
  · rw [disk, fs]
    exact inOrder.mounted

/-- A file has been created. -/
structure CreatedIn (session after : Session) (kind : FileType) : Prop where
  made : ∃ parent last i sector fresh, IsDirectory session.disk parent ∧
    FileSystem.Created session.disk after.disk parent last i sector kind fresh
  fs : after.fs = session.fs
  handles : after.handles = session.handles

/-- A new directory would have to be made of too few free sectors. -/
def Tight (disk : Disk) (path : List Byte) (kind : FileType) : Prop :=
  kind = .dir ∧ (∃ parent last, Creatable disk path parent last) ∧ (freeMapOn disk).numClear ≤ 2

/-- Sectors are enough for what can be created, unless they are too few for a directory. -/
theorem provided_of_enough {disk : Disk} {path last : List Byte} {parent : Int} {kind : FileType}
    (kinds : kind = .file ∨ kind = .dir) (able : Creatable disk path parent last)
    (enough : ¬ Tight disk path kind) : Provided disk kind := by
  refine kinds.imp id fun isDir => ⟨isDir, ?_⟩
  by_contra few
  exact enough ⟨isDir, ⟨parent, last, able⟩, by omega⟩

/-- What `Create` can do: nothing, or create the file, unless sectors are too few. -/
theorem call_create (inOrder : InOrder session) {path : List Byte} {kind : FileType}
    (kinds : kind = .file ∨ kind = .dir) {result : Int}
    (made : session.call (.create path kind) = some (result, after)) :
    (result = 0 ∧ Idle session after) ∨ (result = 1 ∧ CreatedIn session after kind) ∨
      (result = 0 ∧ Tight session.disk path kind) := by
  obtain ⟨sound, mounted⟩ := inOrder
  obtain ⟨⟨⟨success, fs⟩, between⟩, performed, same⟩ := Option.bind_eq_some_iff.mp made
  cases same
  -- There is a component, or the call would have been refused.
  have component := component_of_performed
    (fun none => (FileSystem.refuses_of_noComponent sound mounted none kind).1) performed
  by_cases creatable : ∃ parent last, Creatable session.disk path parent last
  swap
  · -- The name is there, or there is no place for it, or no sector.
    have reads := @FileSystem.create_refused _ _ path kind sound mounted component
      fun parent last able => creatable ⟨parent, last, able⟩
    obtain ⟨⟨given, same⟩, -, handles⟩ := perform_holds reads performed
    cases given
    exact .inl ⟨rfl, same, rfl, congrArg (List.map known) handles⟩
  -- What can be created is created, if the sectors are enough.
  obtain ⟨parent, last, able⟩ := creatable
  by_cases provided : Provided session.disk kind
  · obtain ⟨⟨given, i, sector, fresh, created⟩, -, handles⟩ :=
      perform_holds (FileSystem.create_yields sound mounted able provided) performed
    cases given
    exact .inr (.inl ⟨rfl, ⟨parent, last, i, sector, fresh, able.leads.isDirectory .root, created⟩,
      rfl, handles⟩)
  · -- Only a directory needs more than the sector of its header.
    have isDir : kind = .dir := kinds.resolve_left fun file => provided (.inl file)
    have short : (freeMapOn session.disk).numClear ≤ 2 := by
      by_contra enough
      exact provided (.inr ⟨isDir, by omega⟩)
    -- The result is that of the call that ran out of sectors.
    obtain ⟨⟨given, world⟩, ran, same⟩ := Option.map_eq_some_iff.mp performed
    cases same
    subst isDir
    have failed := FileSystem.create_short sound mounted able short session.world rfl _ _ ran
    dsimp only at failed
    exact .inr (.inr ⟨by simp [failed], rfl, ⟨parent, last, able⟩, short⟩)

/-- What `Open` can do: nothing, or give one more handle. -/
theorem call_open (inOrder : InOrder session) {path : List Byte} {result : Int}
    (made : session.call (.«open» path) = some (result, after)) :
    (result = 0 ∧ Idle session after) ∨
      (result = 1 ∧ ∃ file, OpenFile.Current session.disk file ∧ file.seekPosition = 0 ∧
        after.disk = session.disk ∧ after.fs = session.fs ∧
        after.handles = session.handles ++ [⟨file, true⟩]) := by
  obtain ⟨sound, mounted⟩ := inOrder
  obtain ⟨⟨found, between⟩, performed, same⟩ := Option.bind_eq_some_iff.mp made
  have component := component_of_performed
    (fun none => (FileSystem.refuses_of_noComponent sound mounted none .file).2.1) performed
  -- No entry has the name, or the header that the entry names is read.
  rcases FileSystem.open_cases sound mounted component with
    reads | ⟨directory, i, sector, isDirectory, entry, reads⟩
  · -- Nothing is opened.
    obtain ⟨⟨rfl, disk⟩, fs, handles⟩ := perform_holds reads performed
    cases same
    exact .inl ⟨rfl, disk, fs, congrArg (List.map known) handles⟩
  · -- The handle is at the start of the file, and its header is that of the entry.
    obtain ⟨⟨rfl, disk⟩, fs, handles⟩ := perform_holds reads performed
    cases same
    have self := (sound.laid sector (.entry isDirectory entry)).2
    refine .inr ⟨rfl, ⟨headerAt session.disk sector, 0⟩, ⟨⟨directory, i, isDirectory, ?_⟩, ?_⟩, rfl,
      disk, fs, ?_⟩
    · rw [self]
      exact entry
    · rw [self]
    · rw [← handles]

/-- A file has been removed. -/
structure RemovedIn (session after : Session) (removed : Int) : Prop where
  made : ∃ parent i, IsDirectory session.disk parent ∧
    (holdings session.disk).entry parent i = some removed ∧
    Removed session.disk after.disk parent i removed
  fs : after.fs = session.fs
  handles : after.handles = session.handles

/-- A path names a file with this header. -/
def Names (disk : Disk) (path : List Byte) (sector : Int) : Prop :=
  ∃ parent last i, Leads disk directorySector path parent last ∧
    (dirAt disk parent).findIndex last = some i ∧ (dirAt disk parent).entrySector i = sector

/-- What `Remove` can do: nothing, or remove the file that the path names. -/
theorem call_remove (inOrder : InOrder session) {path : List Byte} {result : Int}
    (made : session.call (.remove path) = some (result, after)) :
    (result = 0 ∧ Idle session after) ∨
      (result = 1 ∧ ∃ sector, Names session.disk path sector ∧ RemovedIn session after sector) := by
  obtain ⟨sound, mounted⟩ := inOrder
  obtain ⟨⟨⟨success, fs⟩, between⟩, performed, same⟩ := Option.bind_eq_some_iff.mp made
  cases same
  have component := component_of_performed
    (fun none => (FileSystem.refuses_of_noComponent sound mounted none .file).2.2) performed
  -- A name that no entry has is not removed, and nothing changes.
  rcases sound.readable.find_cases component with ⟨parent, last, i, leads, search⟩ | absent
  swap
  · obtain ⟨⟨given, same⟩, -, handles⟩ :=
      perform_holds (FileSystem.remove_absent sound mounted absent) performed
    cases given
    exact .inl ⟨rfl, same, rfl, congrArg (List.map known) handles⟩
  -- The entry that the search has found is removed.
  obtain ⟨inside, inUse, -, -⟩ := Directory.findIndex_some search
  obtain ⟨⟨given, removed⟩, -, handles⟩ :=
    perform_holds (FileSystem.remove_yields sound mounted leads search) performed
  cases given
  exact .inr ⟨rfl, _, ⟨parent, last, i, leads, search, rfl⟩,
    ⟨⟨parent, i, leads.isDirectory .root, entry_eq_some.mpr ⟨⟨inside, inUse⟩, rfl⟩, removed⟩, rfl,
      handles⟩⟩

/-- A write through a handle has changed its file. -/
structure WroteIn (session after : Session) (handle : Nat) (file file' : OpenFile)
    (source : List Byte) : Prop where
  wrote : ∃ start fresh,
    OpenFile.Wrote session.disk after.disk file.hdr file'.hdr source start fresh
  fs : after.fs = session.fs
  handles : after.handles = (session.wrote handle file').handles

/-- What a write through a handle can do: nothing, or write all of its bytes. -/
theorem wrote_cases {file' given : OpenFile} {handle : Nat} {held : Handle} {source : List Byte}
    {position result : Int} {between : Session} (there : session.handles[handle]? = some held)
    (ready : Ready session.disk held.file.hdr)
    (performed : session.perform (held.file.writeAt source position) = some ((result, given), between))
    (moved : file'.hdr = given.hdr) :
    (result = 0 ∧ Idle session (between.written handle file' result)) ∨
      (result = source.length ∧
        WroteIn session (between.written handle file' result) handle held.file file' source) := by
  obtain ⟨⟨_, world⟩, ran, same⟩ := Option.map_eq_some_iff.mp performed
  cases same
  -- The position was refused, or the bytes are written.
  rcases OpenFile.writeAt_cases ready rfl ran with ⟨same, disk⟩ |
    ⟨start, hdr', fresh, -, some, -, same, wrote⟩
  · -- Nothing is written, and the handle is where it was.
    cases same
    exact .inl ⟨rfl, disk, rfl, used_known there moved⟩
  · -- The count is that of the bytes, so the handle moves behind them.
    cases same
    have count : (source.length : Int) ≠ 0 := by omega
    refine .inr ⟨rfl, ?_⟩
    unfold written
    rw [if_neg count]
    exact ⟨⟨start, fresh, moved ▸ wrote⟩, rfl, rfl⟩

end Session

/-- The handle that a call writes through, and the bytes that it writes. -/
def Call.writes : Call → Option (Nat × List Byte)
  | .write handle source => some (handle, source)
  | .writeAt handle source _ => some (handle, source)
  | _ => none

/-- Does the call leave the disk alone whatever it finds there? -/
def Call.Moves : Call → Prop
  | .seek _ _ | .read _ _ | .readAt _ _ _ => True
  | _ => False

namespace Session

variable {session after : Session} {call : Call} {result : Int}

/-- What a write through a handle that is ready can do. -/
theorem call_writes {handle : Nat} {source : List Byte} (writes : call.writes = some (handle, source))
    (made : session.call call = some (result, after)) :
    ∃ held, session.handles[handle]? = some held ∧ (Ready session.disk held.file.hdr →
      (result = 0 ∧ Idle session after) ∨
        ∃ file', result = source.length ∧ WroteIn session after handle held.file file' source) := by
  -- `Write` goes on to `WriteAt` at the position of the handle, which it then moves.
  cases call with
  | write handle' source' =>
    cases writes
    obtain ⟨held, there, made⟩ := Option.bind_eq_some_iff.mp made
    obtain ⟨⟨⟨count, file'⟩, between⟩, performed, same⟩ := Option.bind_eq_some_iff.mp made
    cases same
    refine ⟨held, there, fun ready => ?_⟩
    obtain ⟨⟨⟨written, given⟩, world⟩, ran, same⟩ := Option.map_eq_some_iff.mp performed
    cases same
    obtain ⟨wrote, wroteAt, rfl⟩ := OpenFile.write_run ran
    -- The write goes through as one at the position of the handle.
    have performed : session.perform (held.file.writeAt source held.file.seekPosition) =
        some ((result, wrote), { session with world }) := by
      unfold perform
      rw [wroteAt]
      rfl
    -- Moving the handle leaves the header.
    have moved : OpenFile.hdr { wrote with seekPosition := wrote.seekPosition + result } =
        wrote.hdr := rfl
    exact (wrote_cases there ready performed moved).imp id fun both => ⟨_, both⟩
  -- `WriteAt` does not move it at all.
  | writeAt handle' source' position =>
    cases writes
    obtain ⟨held, there, made⟩ := Option.bind_eq_some_iff.mp made
    obtain ⟨⟨⟨count, file'⟩, between⟩, performed, same⟩ := Option.bind_eq_some_iff.mp made
    cases same
    exact ⟨held, there, fun ready =>
      (wrote_cases there ready performed rfl).imp id fun both => ⟨_, both⟩⟩
  -- The other calls do not write.
  | create _ _ => cases writes
  | «open» _ => cases writes
  | remove _ => cases writes
  | seek _ _ => cases writes
  | read _ _ => cases writes
  | readAt _ _ _ => cases writes

/-- What a call that only reads or moves can do. -/
theorem call_moves (made : session.call call = some (result, after)) (moves : call.Moves) :
    Idle session after := by
  cases call with
  -- A seek is in memory only.
  | seek handle position =>
    obtain ⟨held, there, same⟩ := Option.bind_eq_some_iff.mp made
    cases same
    exact ⟨rfl, rfl, used_known there rfl⟩
  -- A read moves the place of the handle.
  | read handle numBytes =>
    obtain ⟨held, there, made⟩ := Option.bind_eq_some_iff.mp made
    obtain ⟨⟨⟨into, file⟩, between⟩, performed, same⟩ := Option.bind_eq_some_iff.mp made
    cases same
    obtain ⟨⟨given, world⟩, ran, same⟩ := Option.map_eq_some_iff.mp performed
    cases same
    -- Only the place of the handle in the file is another one.
    obtain ⟨disk, hdr⟩ := OpenFile.read_run ran
    exact ⟨disk, rfl, used_known there hdr⟩
  -- A read at a position does not even do that.
  | readAt handle numBytes position =>
    obtain ⟨held, there, made⟩ := Option.bind_eq_some_iff.mp made
    obtain ⟨⟨into, between⟩, performed, same⟩ := Option.bind_eq_some_iff.mp made
    cases same
    obtain ⟨⟨given, world⟩, ran, same⟩ := Option.map_eq_some_iff.mp performed
    cases same
    exact ⟨Fs.disk_kept (held.file.asks_readAt numBytes position) ran, rfl, rfl⟩
  -- The other calls create, open, remove or write.
  | create _ _ => exact moves.elim
  | «open» _ => exact moves.elim
  | remove _ => exact moves.elim
  | write _ _ => exact moves.elim
  | writeAt _ _ _ => exact moves.elim

/-- What a call has done, and with which result. -/
inductive Did (session after : Session) : Call → Int → Prop
  | idle {call : Call} {result : Int} (idle : Idle session after) : Did session after call result
  | created {path : List Byte} {kind : FileType} (created : CreatedIn session after kind) :
    Did session after (.create path kind) 1
  | tight {path : List Byte} {kind : FileType} (tight : Tight session.disk path kind) :
    Did session after (.create path kind) 0
  | opened {path : List Byte} {file : OpenFile} (current : OpenFile.Current session.disk file)
    (start : file.seekPosition = 0) (disk : after.disk = session.disk) (fs : after.fs = session.fs)
    (handles : after.handles = session.handles ++ [⟨file, true⟩]) : Did session after (.«open» path) 1
  | wrote {call : Call} {handle : Nat} {source : List Byte} {held : Handle} {file' : OpenFile}
    (writes : call.writes = some (handle, source)) (there : session.handles[handle]? = some held)
    (wrote : WroteIn session after handle held.file file' source) :
    Did session after call source.length
  | removed {path : List Byte} {sector : Int} (names : Names session.disk path sector)
    (removed : RemovedIn session after sector) : Did session after (.remove path) 1

/-- What a call can do, as long as files are of the ordinary kinds, and ready if they are written. -/
theorem call_did (inOrder : InOrder session)
    (kinds : ∀ path kind, call = .create path kind → kind = .file ∨ kind = .dir)
    (ready : ∀ handle source, call.writes = some (handle, source) →
      ∀ held, session.handles[handle]? = some held → Ready session.disk held.file.hdr)
    (made : session.call call = some (result, after)) : Did session after call result := by
  -- The two calls that write leave the same behind.
  have writing : ∀ {handle source}, call.writes = some (handle, source) →
      Did session after call result := by
    intro handle source writes
    obtain ⟨held, there, cases⟩ := call_writes writes made
    rcases cases (ready handle source writes held there) with ⟨-, idle⟩ | ⟨file', rfl, wrote⟩
    · exact .idle idle
    · exact .wrote writes there wrote
  -- The others are taken one by one.
  cases call with
  | create path kind =>
    rcases call_create inOrder (kinds path kind rfl) made with
      ⟨-, idle⟩ | ⟨rfl, created⟩ | ⟨rfl, tight⟩
    · exact .idle idle
    · exact .created created
    · exact .tight tight
  | «open» path =>
    rcases call_open inOrder made with ⟨-, idle⟩ | ⟨rfl, file, current, start, disk, fs, handles⟩
    · exact .idle idle
    · exact .opened current start disk fs handles
  | remove path =>
    rcases call_remove inOrder made with ⟨-, idle⟩ | ⟨rfl, sector, names, removed⟩
    · exact .idle idle
    · exact .removed names removed
  -- Three calls leave the disk and the headers as they are.
  | seek handle position => exact .idle (call_moves made trivial)
  | read handle numBytes => exact .idle (call_moves made trivial)
  | readAt handle numBytes position => exact .idle (call_moves made trivial)
  | write handle source => exact writing rfl
  | writeAt handle source position => exact writing rfl

end Session

end Nachos
