import Nachos.Filesys.Directory

/-! What `List` and `Print` of a directory show: the names in the entries that are in use. -/

namespace Nachos

namespace Directory

variable (dir : Directory) (i : Nat)

/-- The name field of an entry, with the place for the zero behind the name. -/
def nameField : List Byte :=
  (dir.table.drop (sizeofDirectoryEntry * i + 8)).take (fileNameMaxLen + 1)

/--
What `%s` shows of the name in an entry.

It goes on to the first zero wherever that is, and there is no result if the table has none.
-/
def shownName : Option (List Byte) :=
  let characters := dir.table.drop (sizeofDirectoryEntry * i + 8)
  if 0 ∈ characters then some (characters.takeWhile (· ≠ 0)) else none

/-- The entries in use, in the order of the table. -/
def used : List Nat := (List.range numDirEntries).filter dir.inUse

/-- `List`: one line for each entry in use, with its name. -/
def list : Option (List (List Byte)) := dir.used.mapM dir.shownName

/-- The lines of `Print` about the entries in use: a name and a header sector each. -/
def printEntries : Option (List (List Byte × Int)) :=
  dir.used.mapM fun i => do return (← dir.shownName i, dir.entrySector i)

end Directory

end Nachos
