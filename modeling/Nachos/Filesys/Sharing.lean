import Nachos.Filesys.OpenFile

/-! Several open files on one header, which read and change its file in turns. -/

namespace Nachos

/-- A machine, and the open files on the header of one file. -/
structure Sharing (Holder : Type) where
  world : World
  files : Holder → OpenFile
  -- What has been written to the file, for the record only. No call looks at it.
  written : List Byte

/-- A call through one of the open files. -/
inductive FileCall (Holder : Type)
  | read (holder : Holder) (numBytes : Int)
  | readAt (holder : Holder) (numBytes position : Int)
  | write (holder : Holder) (source : List Byte)
  | writeAt (holder : Holder) (source : List Byte) (position : Int)

namespace Sharing

variable {Holder : Type} [DecidableEq Holder]

/-- Run an operation on the machine. -/
def perform {α : Type} (sharing : Sharing Holder) (operation : Fs α) : Option (α × Sharing Holder) :=
  (operation.run World.serve sharing.world).map fun (value, world) =>
    (value, { sharing with world })

/-- An open file has been used. It may have moved on, and its header may have changed. -/
def used (sharing : Sharing Holder) (holder : Holder) (file : OpenFile) : Sharing Holder :=
  { sharing with files := Function.update sharing.files holder file }

/-- Record what a call has written, by the count that it returned. -/
def record (sharing : Sharing Holder) (source : List Byte) (position result : Int) :
    Sharing Holder :=
  if result = 0 then sharing
  else { sharing with
    written := splice 0 sharing.written position.toNat (source.take result.toNat) }

/-- Make a call and go on. A call that aborts the kernel ends the run. -/
def step (sharing : Sharing Holder) : FileCall Holder → Option (Sharing Holder)
  | .read holder numBytes => do
    let ((_, file), sharing) ← sharing.perform ((sharing.files holder).read numBytes)
    return sharing.used holder file
  | .readAt holder numBytes position => do
    let (_, sharing) ← sharing.perform ((sharing.files holder).readAt numBytes position)
    return sharing
  | .write holder source => do
    let position := (sharing.files holder).seekPosition
    let ((result, file), sharing) ← sharing.perform ((sharing.files holder).write source)
    return (sharing.used holder file).record source position result
  | .writeAt holder source position => do
    let ((result, file), sharing) ← sharing.perform ((sharing.files holder).writeAt source position)
    return (sharing.used holder file).record source position result

end Sharing

end Nachos
