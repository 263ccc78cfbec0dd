import Nachos.Filesys.FileSystem
import Nachos.Theory.Run

/-! The file system in use: callers create, open, read, write and remove files in any order. -/

namespace Nachos

/-- An open file that a caller holds. -/
structure Handle where
  file : OpenFile
  -- Has nobody else written to the file since it was opened? The code does not keep track of this.
  fresh : Bool

/-- A formatted disk in use: the machine, the file system, and the handles of all callers. -/
structure Session where
  world : World
  fs : FileSystem
  handles : List Handle

/-- A call of the file system, or of an open file. Files are numbered in the order of opening. -/
inductive Call
  | create (name : List Byte) (type : FileType)
  | «open» (name : List Byte)
  | remove (name : List Byte)
  | seek (handle : Nat) (position : Int)
  | read (handle : Nat) (numBytes : Int)
  | readAt (handle : Nat) (numBytes position : Int)
  | write (handle : Nat) (source : List Byte)
  | writeAt (handle : Nat) (source : List Byte) (position : Int)

namespace Session

/-- Format a disk, and use it. -/
def format (world : World) : Option Session :=
  (FileSystem.format.run World.serve world).map fun (fs, world) => { world, fs, handles := [] }

/-- The disk of the machine. -/
abbrev disk (session : Session) : Disk := session.world.disk

/-- Run an operation on the machine. -/
def perform {α : Type} (session : Session) (operation : Fs α) : Option (α × Session) :=
  (operation.run World.serve session.world).map fun (value, world) =>
    (value, { session with world })

/-- A handle has been used. It may have moved on, and its header may have changed. -/
def used (session : Session) (handle : Nat) (file : OpenFile) : Session :=
  { session with handles := session.handles.mapIdx fun i other =>
      if i = handle then { other with file } else other }

/-- A handle has been used to change its file, so the other handles of that file are outdated. -/
def wrote (session : Session) (handle : Nat) (file : OpenFile) : Session :=
  { session with handles := session.handles.mapIdx fun i other =>
      if i = handle then { other with file }
      else if other.file.hdr.selfSector = file.hdr.selfSector then { other with fresh := false }
      else other }

/-- A handle has been used to write so many bytes. -/
def written (session : Session) (handle : Nat) (file : OpenFile) (result : Int) : Session :=
  if result = 0 then session.used handle file else session.wrote handle file

/-- Make a call. Its result is a count of bytes, or 1 if it succeeds and 0 if it fails. -/
def call (session : Session) : Call → Option (Int × Session)
  | .create name type => do
    let ((success, fs), session) ← session.perform (session.fs.create name type)
    return (if success then 1 else 0, { session with fs })
  | .«open» name => do
    let (found, session) ← session.perform (session.fs.«open» name)
    match found with
    | some file => return (1, { session with handles := session.handles ++ [⟨file, true⟩] })
    | none => return (0, session)
  | .remove name => do
    let ((success, fs), session) ← session.perform (session.fs.remove name)
    return (if success then 1 else 0, { session with fs })
  | .seek handle position => do
    let held ← session.handles[handle]?
    return (1, session.used handle (held.file.seek position))
  | .read handle numBytes => do
    let held ← session.handles[handle]?
    let ((into, file), session) ← session.perform (held.file.read numBytes)
    return (into.length, session.used handle file)
  | .readAt handle numBytes position => do
    let held ← session.handles[handle]?
    let (into, session) ← session.perform (held.file.readAt numBytes position)
    return (into.length, session)
  | .write handle source => do
    let held ← session.handles[handle]?
    let ((result, file), session) ← session.perform (held.file.write source)
    return (result, session.written handle file result)
  | .writeAt handle source position => do
    let held ← session.handles[handle]?
    let ((result, file), session) ← session.perform (held.file.writeAt source position)
    return (result, session.written handle file result)

/-- Make a call and go on. A call that aborts the kernel ends the session. -/
def step (session : Session) (call : Call) : Option Session :=
  (session.call call).map Prod.snd

end Session

/-- The result of a call that does what it was asked to. -/
def Call.Success : Call → Int → Prop
  | .create _ _, result => result = 1
  | .«open» _, result => result = 1
  | .remove _, result => result = 1
  | .write _ source, result => result = source.length
  | .writeAt _ source _, result => result = source.length
  | _, _ => True

/-- A call of the directories alone, or a write of somebody else. -/
inductive DirectoryCall
  | add (path : List Byte) (newSector : Int)
  | remove (path : List Byte)
  -- Whoever makes the headers of new files writes them to sectors that no directory knows of.
  | prepare (sector : Int) (data : Sector)

/-- Read the root directory and look a path up. -/
def FileSystem.findPath (fs : FileSystem) (path : List Byte) : Fs Int := do
  (← fs.rootDirectory).find path

/-- Read the root directory and make a call of it. -/
def FileSystem.directoryCall (fs : FileSystem) : DirectoryCall → Fs Bool
  | .add path newSector => do (← fs.rootDirectory).add path newSector
  | .remove path => do (← fs.rootDirectory).remove path
  | .prepare sector data => do
    Fs.writeSector sector data
    return true

/-- Make a call of the directories and go on. -/
def Session.directoryStep (session : Session) (call : DirectoryCall) : Option Session :=
  (session.perform (session.fs.directoryCall call)).map Prod.snd

end Nachos
