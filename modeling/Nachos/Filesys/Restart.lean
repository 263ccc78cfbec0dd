import Nachos.Filesys.Session

/-! Stopping the machine, and starting it again with the disk that it has left. -/

namespace Nachos

/-- A call of the file system, with those of the pipe. -/
inductive PipeCall
  | call (call : Call)
  | readPipe
  | writePipe (data : List Byte)

/-- Make a call and go on. A call that aborts the kernel ends the session. -/
def Session.pipeStep (session : Session) : PipeCall → Option Session
  | .call call => session.step call
  | .readPipe => (session.perform FileSystem.readPipe).map Prod.snd
  | .writePipe data => (session.perform (FileSystem.writePipe data)).map Prod.snd

/-- What a caller gets from a call: its result, and the bytes that are copied to the caller. -/
structure Answer where
  result : Int
  bytes : List Byte
  deriving DecidableEq

/-- A machine in use, of any kind: its state, the file system, and the open files of all callers. -/
structure System (State : Type) where
  world : State
  fs : FileSystem
  files : List OpenFile

namespace System

variable {State : Type} (handler : Program.Handler KernelRequest KernelRequest.Answer State)

/-- Run an operation on the machine. -/
def perform {α : Type} (system : System State) (operation : Fs α) : Option (α × System State) :=
  (operation.run handler system.world).map fun (value, world) => (value, { system with world })

/-- A call with what the caller gets from it. -/
def use (system : System State) : PipeCall → Option (Answer × System State)
  | .call (.create name type) => do
    let ((success, fs), system) ← system.perform handler (system.fs.create name type)
    return (⟨if success then 1 else 0, []⟩, { system with fs })
  | .call (.«open» name) => do
    let (found, system) ← system.perform handler (system.fs.«open» name)
    match found with
    | some file => return (⟨1, []⟩, { system with files := system.files ++ [file] })
    | none => return (⟨0, []⟩, system)
  | .call (.remove name) => do
    let ((success, fs), system) ← system.perform handler (system.fs.remove name)
    return (⟨if success then 1 else 0, []⟩, { system with fs })
  -- A handle that was never given out is no call of the kernel.
  | .call (.seek handle position) => do
    let file ← system.files[handle]?
    return (⟨1, []⟩, { system with files := system.files.set handle (file.seek position) })
  | .call (.read handle numBytes) => do
    let file ← system.files[handle]?
    let ((into, file), system) ← system.perform handler (file.read numBytes)
    return (⟨into.length, into⟩, { system with files := system.files.set handle file })
  -- A read at a given position leaves the place of the file alone.
  | .call (.readAt handle numBytes position) => do
    let file ← system.files[handle]?
    let (into, system) ← system.perform handler (file.readAt numBytes position)
    return (⟨into.length, into⟩, system)
  | .call (.write handle source) => do
    let file ← system.files[handle]?
    let ((result, file), system) ← system.perform handler (file.write source)
    return (⟨result, []⟩, { system with files := system.files.set handle file })
  | .call (.writeAt handle source position) => do
    let file ← system.files[handle]?
    let ((result, file), system) ← system.perform handler (file.writeAt source position)
    return (⟨result, []⟩, { system with files := system.files.set handle file })
  | .readPipe => do
    let (into, system) ← system.perform handler FileSystem.readPipe
    return (⟨into.length, into⟩, system)
  | .writePipe data => do
    let ((), system) ← system.perform handler (FileSystem.writePipe data)
    return (⟨0, []⟩, system)

/-- What the callers get, call by call, up to the first call that aborts the kernel. -/
def answers (system : System State) : List PipeCall → List (Option Answer)
  | [] => []
  | call :: rest =>
    match system.use handler call with
    | some (answer, next) => some answer :: next.answers rest
    | none => [none]

end System

/-- The machine of a session, with a cache in front of the disk. -/
def Session.cached (session : Session) (running : CachedWorld) : System CachedWorld where
  world := running
  fs := session.fs
  files := session.handles.map Handle.file

/-- Start the machine: make a new cache, and mount the file system. No file is open yet. -/
def CachedWorld.restart (running : CachedWorld)
    (uninitialised : Vector DiskCacheEntry diskCacheSize) : Option (System CachedWorld) :=
  let world := { running with synchDisk := SynchDisk.new running.synchDisk.disk uninitialised }
  (FileSystem.mount.run CachedWorld.serve world).map fun (fs, world) => { world, fs, files := [] }

/-- The same call when so many more files have been opened before. -/
def PipeCall.shift (count : Nat) : PipeCall → PipeCall
  | .call (.seek handle position) => .call (.seek (count + handle) position)
  | .call (.read handle numBytes) => .call (.read (count + handle) numBytes)
  | .call (.readAt handle numBytes position) => .call (.readAt (count + handle) numBytes position)
  | .call (.write handle source) => .call (.write (count + handle) source)
  | .call (.writeAt handle source position) => .call (.writeAt (count + handle) source position)
  | unnumbered => unnumbered

end Nachos
