import Nachos.Filesys.FileHeader
import Nachos.Proofs.Filesys.Kernel
import Nachos.Proofs.Lib.Bitmap

/-! Laws of file headers: how they are stored, and which sectors a header takes and gives back. -/

namespace Nachos

namespace Sector

/-- A sector holds the bytes it is made of, if there are enough of them. -/
theorem toList_ofBytes {bytes : List Byte} (full : bytes.length = sectorSize) :
    (ofBytes bytes).toList = bytes := by
  apply List.ext_getElem (by simp [full])
  intro i _ inside
  simp [ofBytes, List.getD_eq_getElem?_getD, inside]

/-- A byte of a sector is the one it was made of. -/
theorem getD_ofBytes (bytes : List Byte) {i : Nat} (inside : i < sectorSize) :
    (ofBytes bytes).toList.getD i 0 = bytes.getD i 0 := by
  simp [ofBytes, List.getD_eq_getElem?_getD, inside]

/-- A sector of ints gives each of them back. -/
theorem int_ofInts {ints : List Int} (full : ints.length = 32)
    (small : ∀ value ∈ ints, InInt value) {i : Nat} (inside : i < 32) :
    (ofInts ints).int i = ints.getD i 0 := by
  have bytes : (ints.flatMap intBytes).length = sectorSize := by
    simp [List.length_flatMap, full]
  have held := intAt_flatMap_intBytes ints small [] i (by omega)
  rw [List.append_nil] at held
  rw [int, ofInts, toList_ofBytes bytes, held]

/-- A sector of ints gives the words of the ints back. -/
theorem word_ofInts {ints : List Int} (full : ints.length = 32)
    (small : ∀ value ∈ ints, InInt value) {i : Nat} (inside : i < 32) {value : Word}
    (same : ints.getD i 0 = value.toInt) : (ofInts ints).word i = value :=
  BitVec.eq_of_toInt_eq ((int_ofInts full small inside).trans same)

end Sector

/-- The kind of a file comes back from its number. -/
@[simp] theorem FileType.ofWord_toWord (type : FileType) : ofWord type.toWord = type := by
  cases type with
  | outside number unnamed => exact dif_pos unnamed
  | _ => rfl

/-- The number of a kind comes back from it. -/
@[simp] theorem FileType.toWord_ofWord (number : Word) : (ofWord number).toWord = number := by
  -- One case for each of the named kinds, in the order in which their numbers are tried.
  unfold ofWord
  split
  · -- A number above two is that of no kind.
    rfl
  · rename_i small
    split
    · rename_i zero
      exact zero.symm
    · split
      · rename_i one
        exact one.symm
      · split
        · rename_i two
          exact two.symm
        · -- Any other number below three is one of them.
          rename_i notZero notOne notTwo
          apply BitVec.eq_of_toNat_eq
          have other : number.toNat ≠ 0 ∧ number.toNat ≠ 1 ∧ number.toNat ≠ 2 :=
            ⟨fun same => notZero (BitVec.eq_of_toNat_eq same),
              fun same => notOne (BitVec.eq_of_toNat_eq same),
              fun same => notTwo (BitVec.eq_of_toNat_eq same)⟩
          have three : (unknown : FileType).toWord.toNat = 3 := rfl
          omega

namespace FileHeader

/-- Every number in the header fits an int. -/
structure Small (hdr : FileHeader) : Prop where
  limit : InInt hdr.limit
  capacity : InInt hdr.capacity
  nsectors : InInt hdr.nsectors
  selfSector : InInt hdr.selfSector
  dataSectors : ∀ i, InInt (hdr.dataSector i)

/-- The sector numbers of a header are those that its accessor gives. -/
theorem dataSectors_ext {first second : Vector Int (numDirect + 1)}
    (same : ∀ i < numDirect + 1, first.toList.getD i 0 = second.toList.getD i 0) :
    first = second := by
  apply Vector.ext
  intro i inside
  have here := same i inside
  simpa [List.getD_eq_getElem?_getD, inside] using here

/-- A header comes back from the sector it is stored in. -/
theorem ofSector_toSector {hdr : FileHeader} (small : hdr.Small) :
    ofSector hdr.toSector = hdr := by
  obtain ⟨limit, capacity, nsectors, selfSector, type, createTime, modifyTime, dataSectors⟩ := hdr
  obtain ⟨limitFits, capacityFits, nsectorsFits, selfFits, sectorsFit⟩ := small
  -- The header is an array of ints that fills its sector.
  generalize laid : [limit, capacity, nsectors, selfSector, type.toWord.toInt,
    createTime.toInt, modifyTime.toInt] ++ dataSectors.toList = ints
  have full : ints.length = 32 := by simp [← laid]
  -- All of its numbers are ints.
  have fits : ∀ value ∈ ints, InInt value := by
    intro value member
    rw [← laid] at member
    rcases List.mem_append.mp member with front | back
    · simp only [List.mem_cons, List.not_mem_nil, or_false] at front
      rcases front with rfl | rfl | rfl | rfl | rfl | rfl | rfl
      · exact limitFits
      · exact capacityFits
      · exact nsectorsFits
      · exact selfFits
      · exact inInt_toInt _
      · exact inInt_toInt _
      · exact inInt_toInt _
    · -- A slot holds a sector number.
      obtain ⟨i, inside, rfl⟩ := List.getElem_of_mem back
      have here := sectorsFit i
      rwa [dataSector, List.getD_eq_getElem?_getD, List.getElem?_eq_getElem inside] at here
  -- Each of its ints can be read again, and so can a word that was stored as one.
  have int : ∀ i < 32, (Sector.ofInts ints).int i = ints.getD i 0 :=
    fun i inside => Sector.int_ofInts full fits inside
  have word : ∀ i < 32, ∀ value : Word, ints.getD i 0 = value.toInt →
      (Sector.ofInts ints).word i = value :=
    fun i inside value same => Sector.word_ofInts full fits inside same
  -- The seven fields are the first of the ints.
  have front : ints.getD 0 0 = limit ∧ ints.getD 1 0 = capacity ∧ ints.getD 2 0 = nsectors ∧
      ints.getD 3 0 = selfSector ∧ ints.getD 4 0 = type.toWord.toInt ∧
      ints.getD 5 0 = createTime.toInt ∧ ints.getD 6 0 = modifyTime.toInt := by
    simp [← laid]
  -- The slots are those behind.
  have back : ∀ i < numDirect + 1, ints.getD (7 + i) 0 = dataSectors.toList.getD i 0 := by
    intro i inside
    rw [← laid, List.getD_append_right _ _ _ _ (by simp)]
    simp
  have slots : (Vector.ofFn fun i : Fin (numDirect + 1) => (Sector.ofInts ints).int (7 + i)) =
      dataSectors := by
    apply dataSectors_ext
    intro i inside
    have bound : i < 25 := inside
    rw [← back i inside, ← int (7 + i) (by omega)]
    simp [List.getD_eq_getElem?_getD, inside]
  obtain ⟨at0, at1, at2, at3, at4, at5, at6⟩ := front
  -- Field by field, what is read is what was stored there.
  unfold toSector
  dsimp only
  rw [laid]
  unfold ofSector
  rw [int 0 (by decide), int 1 (by decide), int 2 (by decide), int 3 (by decide),
    word 4 (by decide) _ at4, word 5 (by decide) _ at5, word 6 (by decide) _ at6, at0, at1, at2,
    at3, FileType.ofWord_toWord, slots]

/-- The ints that a run of bytes spells, spelled again. -/
theorem flatMap_intBytes_intAt (bytes : List Byte) (n : Nat) (full : 4 * n ≤ bytes.length) :
    ((List.range n).map fun i => intAt bytes (4 * i)).flatMap intBytes = bytes.take (4 * n) := by
  -- By induction on the number of ints, the last of which has the last four bytes.
  induction n with
  -- No ints are spelled.
  | zero => rfl
  | succ n ih =>
    have cut : ((bytes.drop (4 * n)).take 4).length = 4 := by
      rw [List.length_take, List.length_drop]
      omega
    -- The last four bytes are those of the last int.
    have last : intBytes (intAt bytes (4 * n)) = (bytes.drop (4 * n)).take 4 := by
      have below := leNat_lt ((bytes.drop (4 * n)).take 4)
      have digits := leBytes_leNat ((bytes.drop (4 * n)).take 4)
      rw [cut] at below digits
      unfold intBytes intAt
      rw [BitVec.ofInt_toInt, wordAt, BitVec.toNat_ofNat, @Nat.mod_eq_of_lt _ (2 ^ 32) below, digits]
    rw [List.range_succ, List.map_append, List.flatMap_append, ih (by omega), Nat.mul_succ,
      List.take_add]
    simp [last]

/-- A sector comes back from the header that it stores. -/
theorem toSector_ofSector (data : Sector) : (ofSector data).toSector = data := by
  -- The slots are read from behind the seven fields.
  have slots : (ofSector data).dataSectors.toList = (List.range 25).map fun i => data.int (7 + i) := by
    apply List.ext_getElem
    · simp
    · intro i inside _
      simp [ofSector]
  -- The kind keeps its number.
  have kind : (ofSector data).type.toWord.toInt = data.int 4 :=
    congrArg BitVec.toInt (FileType.toWord_ofWord _)
  -- The seven numbers in front and the slots are the 32 ints of the sector.
  have ints : [(ofSector data).limit, (ofSector data).capacity, (ofSector data).nsectors,
      (ofSector data).selfSector, (ofSector data).type.toWord.toInt,
      (ofSector data).createTime.toInt, (ofSector data).modifyTime.toInt] ++
        (ofSector data).dataSectors.toList =
      (List.range 32).map fun i => intAt data.toList (4 * i) := by
    have split : List.range 32 = List.range 7 ++ (List.range 25).map (7 + ·) := rfl
    rw [slots, kind, split, List.map_append, List.map_map]
    rfl
  have full : data.toList.length = 4 * 32 := by simp
  -- So all the ints spell the bytes of the sector.
  unfold toSector
  rw [ints, Sector.ofInts, flatMap_intBytes_intAt data.toList 32 (by omega),
    List.take_of_length_le (by omega)]
  apply Vector.ext
  intro i inside
  simp [Sector.ofBytes, List.getD_eq_getElem?_getD]

end FileHeader

end Nachos
