import Nachos.Filesys.Listing
import Nachos.Proofs.Filesys.Directory

/-! Where the name in an entry ends, and what is shown of it. -/

namespace Nachos

section CStrings

variable {n : Nat} {characters : List Byte}

/-- A string is shorter than the part that it is taken from exactly if a zero ends it there. -/
theorem length_cString_lt (long : n ≤ characters.length) :
    (cString n characters).length < n ↔ 0 ∈ characters.take n := by
  have length : (characters.take n).length = n := List.length_take_of_le long
  have front := List.takeWhile_prefix (l := characters.take n) fun c => decide (c ≠ 0)
  -- The string is the whole part exactly if no character of it is zero.
  have whole : cString n characters = characters.take n ↔ 0 ∉ characters.take n := by
    unfold cString
    rw [List.takeWhile_eq_self_iff]
    simp only [decide_eq_true_eq, ne_eq]
    exact ⟨fun every member => every 0 member rfl, fun absent c member zero => absent (zero ▸ member)⟩
  -- A part without a zero is all of the string, and a zero makes the string shorter.
  constructor
  · intro shorter
    by_contra absent
    rw [whole.mpr absent, length] at shorter
    exact Nat.lt_irrefl n shorter
  · intro zero
    refine Nat.lt_of_le_of_ne (front.length_le.trans length.le) fun same => ?_
    exact whole.mp (front.eq_of_length (same.trans length.symm)) zero

/-- What is behind the first zero does not matter. -/
theorem takeWhile_append_of_zero {front rest : List Byte} (zero : 0 ∈ front) :
    (front ++ rest).takeWhile (· ≠ 0) = front.takeWhile (· ≠ 0) := by
  -- The front part is not taken as a whole.
  have shorter := (length_cString_lt (Nat.le_refl front.length)).mpr (by rwa [List.take_length])
  unfold cString at shorter
  rw [List.take_length] at shorter
  rw [List.takeWhile_append, if_neg (Nat.ne_of_lt shorter)]

/-- As much of a string as has its first zero is enough to read it. -/
theorem takeWhile_of_take {n : Nat} (zero : 0 ∈ characters.take n) :
    characters.takeWhile (· ≠ 0) = (characters.take n).takeWhile (· ≠ 0) := by
  conv_lhs => rw [← List.take_append_drop n characters]
  exact takeWhile_append_of_zero zero

/-- A zero at the end of a part ends the string that the part holds. -/
theorem takeWhile_append_zero (front : List Byte) :
    (front ++ [0]).takeWhile (· ≠ 0) = front.takeWhile (· ≠ 0) := by
  -- The zero at the end matters only if there is none in front of it.
  by_cases zero : 0 ∈ front
  · exact takeWhile_append_of_zero zero
  have every : ∀ c ∈ front, decide (c ≠ 0) = true :=
    fun c member => by simpa using fun same : c = 0 => zero (same ▸ member)
  rw [List.takeWhile_append_of_pos every, List.takeWhile_cons_of_neg (by decide), List.append_nil,
    List.takeWhile_eq_self_iff.mpr every]

end CStrings

namespace Directory

variable {dir dir' : Directory} {i : Nat} {name : List Byte} {newSector : Int}

/-- The last byte of a name field, which is there for the zero behind the longest names. -/
def lastByte (dir : Directory) (i : Nat) : Byte := dir.table.getD (sizeofDirectoryEntry * i + 17) 0

/-- What is shown of a name ends with the first zero, and needs no more than a part that has one. -/
theorem shownName_of_take {n : Nat} {front : List Byte}
    (starts : (dir.table.drop (sizeofDirectoryEntry * i + 8)).take n = front) (zero : 0 ∈ front) :
    dir.shownName i = some (front.takeWhile (· ≠ 0)) := by
  rw [← starts] at zero ⊢
  unfold shownName
  dsimp only
  rw [if_pos (List.mem_of_mem_take zero), takeWhile_of_take zero]

section Field

variable (table : dir.table.length = directoryFileSize) (inside : i < numDirEntries)

include table inside

/-- A name field has as many bytes as a name may have, and the last one. -/
theorem nameField_eq : dir.nameField i =
    (dir.table.drop (sizeofDirectoryEntry * i + 8)).take fileNameMaxLen ++ [dir.lastByte i] := by
  have long : dir.table.length = 200 := table
  have few : i < 10 := inside
  have there : 20 * i + 8 + 9 < dir.table.length := by omega
  -- The ten bytes are there, so the last of them can be read off.
  unfold nameField lastByte
  simp only [sizeofDirectoryEntry, fileNameMaxLen]
  rw [List.take_add_one, List.getElem?_drop, List.getElem?_eq_getElem there,
    List.getD_eq_getElem?_getD, List.getElem?_eq_getElem (by omega : 20 * i + 17 < dir.table.length)]
  rfl

/-- A zero ends a name in its field if the name is shorter than it may be, or the last byte is 0. -/
theorem zero_mem_nameField : 0 ∈ dir.nameField i ↔
    (dir.entryName i).length < fileNameMaxLen ∨ dir.lastByte i = 0 := by
  have long : dir.table.length = 200 := table
  have few : i < 10 := inside
  have room : fileNameMaxLen ≤ (dir.table.drop (sizeofDirectoryEntry * i + 8)).length := by
    simp only [List.length_drop, sizeofDirectoryEntry, fileNameMaxLen]
    omega
  -- The zero is among the first nine bytes, which cuts the name short, or it is the last one.
  unfold entryName
  rw [length_cString_lt room, nameField_eq table inside, List.mem_append, List.mem_singleton,
    eq_comm (a := (0 : Byte))]

/-- A name that ends in its field is shown as it is compared. -/
theorem shownName_eq (ends : 0 ∈ dir.nameField i) : dir.shownName i = some (dir.entryName i) := by
  -- Nothing behind the field is shown, as a zero of the field comes first.
  rw [shownName_of_take rfl ends, Option.some.injEq]
  change (dir.nameField i).takeWhile _ = _
  rw [nameField_eq table inside] at ends ⊢
  rcases List.mem_append.mp ends with early | last
  · rw [takeWhile_append_of_zero early]
    rfl
  · rw [← List.mem_singleton.mp last, takeWhile_append_zero]
    rfl

end Field

section Shown

variable {α β : Type}

/-- A list is read item by item if every item can be read. -/
theorem mapM_eq_map {read : α → Option β} {value : α → β} {items : List α}
    (reads : ∀ item ∈ items, read item = some (value item)) :
    items.mapM read = some (items.map value) := by
  induction items with
  | nil => rfl
  | cons item rest ih =>
    rw [List.mapM_cons, reads item List.mem_cons_self,
      ih fun later member => reads later (List.mem_cons_of_mem item member)]
    rfl

/-- The entries in use are those whose flag is set. -/
theorem mem_used : i ∈ dir.used ↔ i < numDirEntries ∧ dir.inUse i = true := by
  rw [used, List.mem_filter, List.mem_range]

/-- If every name ends in its field, `List` shows the names, and `Print` shows their sectors too. -/
theorem list_eq (table : dir.table.length = directoryFileSize)
    (ends : ∀ i ∈ dir.used, 0 ∈ dir.nameField i) :
    dir.list = some (dir.used.map dir.entryName) ∧
      dir.printEntries = some (dir.used.map fun i => (dir.entryName i, dir.entrySector i)) := by
  -- Each line is the name as it is compared.
  have shown : ∀ i ∈ dir.used, dir.shownName i = some (dir.entryName i) :=
    fun i member => shownName_eq table (mem_used.mp member).1 (ends i member)
  refine ⟨mapM_eq_map shown, mapM_eq_map fun i member => ?_⟩
  rw [shown i member]
  rfl

end Shown

section LastByte

/-- Setting a flag changes no last byte. -/
theorem lastByte_setInUse (dir : Directory) (i : Nat) (inUse : Bool) (j : Nat) :
    (dir.setInUse i inUse).lastByte j = dir.lastByte j := by
  -- Flags and last bytes are at different places of their entries.
  unfold lastByte setInUse
  simp only [sizeofDirectoryEntry, getD_splice, List.length_singleton]
  rw [if_neg (by omega)]

/-- The first entry that is not in use. -/
def firstFree (dir : Directory) : Option Nat :=
  (List.range numDirEntries).find? fun i => !dir.inUse i

/-- Which entry the first free one is. -/
theorem firstFree_eq_some : dir.firstFree = some i ↔
    i < numDirEntries ∧ dir.inUse i = false ∧ ∀ j < i, dir.inUse j = true := by
  -- The search stops at the first entry whose flag is clear.
  unfold firstFree
  rw [List.find?_range_eq_some]
  simp only [Bool.not_eq_true', List.mem_range, Bool.not_not]
  exact ⟨fun ⟨free, inside, before⟩ => ⟨inside, free, before⟩,
    fun ⟨inside, free, before⟩ => ⟨free, inside, before⟩⟩

/-- A name that is not there yet goes into the first free entry. -/
theorem addInCurrentDir_eq (absent : dir.findIndex name = none) (free : dir.firstFree = some i) :
    dir.addInCurrentDir name newSector = some { dir.setInUse i true with
      table := splice 0 (splice 0 (dir.setInUse i true).table (sizeofDirectoryEntry * i + 8)
        (cString fileNameMaxLen name ++
          .replicate (fileNameMaxLen - (cString fileNameMaxLen name).length) 0))
        (sizeofDirectoryEntry * i + 4) (intBytes newSector) } := by
  unfold firstFree at free
  unfold addInCurrentDir
  rw [absent, if_neg (by decide), free]
  rfl

/-- `AddInCurrentDir` writes no last byte: the copy of the name ends in front of it. -/
theorem lastByte_addInCurrentDir (adds : dir.addInCurrentDir name newSector = some dir') (j : Nat) :
    dir'.lastByte j = dir.lastByte j := by
  unfold addInCurrentDir at adds
  split at adds
  · cases adds
  obtain ⟨i, -, rfl⟩ := Option.map_eq_some_iff.mp adds
  have short : (cString fileNameMaxLen name).length ≤ 9 :=
    (List.takeWhile_prefix _).length_le.trans (List.length_take_le _ _)
  have four := length_intBytes newSector
  have flags := lastByte_setInUse dir i true j
  unfold lastByte at flags ⊢
  simp only [sizeofDirectoryEntry, fileNameMaxLen] at flags short ⊢
  -- Neither the sector nor the padded name reaches the last byte of any entry.
  rw [getD_splice, if_neg (by omega), getD_splice, if_neg, flags]
  rw [List.length_append, List.length_replicate]
  omega

end LastByte

end Directory

end Nachos
