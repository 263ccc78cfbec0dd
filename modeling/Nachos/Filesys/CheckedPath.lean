import Nachos.Filesys.CheckedFile
import Nachos.Filesys.Directory

/-! `namex` with every null pointer that it follows. No other operation uses one of `skipelem`. -/

namespace Nachos

namespace Directory

/-- `namexWithin`, which ends with nothing where the code follows a null pointer. -/
def checkedNamexWithin : Nat → Directory → List Byte → Bool → CheckedFs (Int × List Byte)
  | 0, _, _, _ => OptionT.lift Program.abort
  | more + 1, dir, path, nameparent =>
    match skipelem path with
    | none => failure
    | some (name, path) =>
      if path.headD 0 = 0 then
        return (if nameparent then dir.sector else dir.dirlookup name, name)
      else
        let next := dir.dirlookup name
        if next = -1 then return (-1, name)
        else do
          let hdr ← OptionT.lift (FileHeader.fetchFrom next)
          if hdr.type ≠ .dir then return (-1, name)
          else
            let nextDirOpenFile ← OptionT.lift (OpenFile.new next)
            let empty ← OptionT.lift newEmpty
            let nextDir ← OptionT.lift (fetchFrom empty nextDirOpenFile)
            checkedNamexWithin more nextDir path nameparent

/-- `namex`. -/
def checkedNamex (dir : Directory) (path : List Byte) (nameparent : Bool) :
    CheckedFs (Int × List Byte) := checkedNamexWithin (path.length + 1) dir path nameparent

end Directory

end Nachos
