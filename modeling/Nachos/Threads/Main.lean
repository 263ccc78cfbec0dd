import Nachos.Filesys.FileSystem

/-! The commands that copy a file of the host in, and print a file. -/

namespace Nachos

/-- Number of bytes that are moved at a time. -/
abbrev transferSize : Nat := 128

/-- The loop of `Copy` over what is left of the host file. It goes round at most this often. -/
def copyLoop : Nat → OpenFile → List Byte → Fs Unit
  | 0, _, _ => Program.abort
  | more + 1, openFile, left =>
    let buffer := left.take transferSize
    if buffer.length > 0 then do
      let (_, openFile) ← openFile.write buffer
      copyLoop more openFile (left.drop transferSize)
    else return

/-- The loop of `Print`, with the bytes that it prints. It goes round at most this often. -/
def printLoop : Nat → OpenFile → Fs (List Byte)
  | 0, _ => Program.abort
  | more + 1, openFile => do
    let (buffer, openFile) ← openFile.read transferSize
    if buffer.length > 0 then return buffer ++ (← printLoop more openFile) else return []

namespace FileSystem

/--
`Copy`, with the bytes of the host file and the path of the new one.

The length of the host file is passed to `Create`, which takes it for the kind of the new file.
-/
def copy (fs : FileSystem) (source target : List Byte) : Fs FileSystem := do
  let fileLength := source.length
  let (created, fs) ← fs.create target (.ofWord (.ofNat 32 fileLength))
  if created then
    match ← fs.«open» target with
    | some openFile =>
      copyLoop (fileLength + 1) openFile source
      return fs
    | none => Program.abort
  else return fs

/-- `Print`, with the bytes that it prints. There are none if there is no such file. -/
def print (fs : FileSystem) (name : List Byte) : Fs (Option (List Byte)) := do
  match ← fs.«open» name with
  | some openFile => return some (← printLoop (openFile.length.toNat + 1) openFile)
  | none => return none

end FileSystem

end Nachos
