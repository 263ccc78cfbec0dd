import Nachos.Proofs.Filesys.Allocate

/-! `WriteAt` on laid out files, with and without more sectors, and the stored map of free sectors. -/

namespace Nachos

/-- Bytes laid over as many others replace them. -/
theorem splice_whole {base read : List Byte} (same : base.length = read.length) :
    splice 0 base 0 read = read := by
  simp [splice, same]

/-- A word is spelled by the bytes of the int it stands for. -/
theorem intBytes_toInt (word : Word) : intBytes word.toInt = leBytes 4 word.toNat := by
  unfold intBytes
  rw [BitVec.ofInt_toInt]

namespace PersistentBitmap

variable {map : PersistentBitmap}

/-- A map takes four bytes for each of its words. -/
theorem length_bytes (map : PersistentBitmap) : (bytes map).length = 4 * map.map.length := by
  simp [bytes, List.length_flatMap, Nat.mul_comm]

/-- A map of all sectors has 32 words. -/
theorem length_map (all : map.numBits = numSectors) : map.map.length = 32 := by
  rw [map.words, all]
  decide

/-- A map comes back from its bytes. -/
theorem overlay_bytes (all : map.numBits = numSectors) :
    overlay (Bitmap.new numSectors) (bytes map) = map := by
  -- The map has as many words as its file.
  have words := length_map all
  have fresh : (bytes (Bitmap.new numSectors)).length = (bytes map).length := by
    rw [length_bytes, length_bytes, words, length_map rfl]
  have held : ∀ i < 32, wordAt (bytes map) (4 * i) = map.map.getD i 0 := by
    intro i inside
    -- The words are the ints that their bytes spell.
    have spelled : bytes map = (map.map.map BitVec.toInt).flatMap intBytes ++ [] := by
      simp only [bytes, List.append_nil, List.flatMap_map, intBytes_toInt]
    have int := intAt_flatMap_intBytes (map.map.map BitVec.toInt)
      (fun value member => by
        obtain ⟨word, -, rfl⟩ := List.mem_map.mp member
        exact inInt_toInt word) [] i (by simpa [words] using inside)
    rw [← spelled] at int
    apply BitVec.eq_of_toInt_eq
    refine int.trans ?_
    simp [List.getD_eq_getElem?_getD, words, inside]
  obtain ⟨numBits, list, sized⟩ := map
  subst all
  -- The bytes are written over all of the map, which is read word by word.
  unfold overlay
  congr 1
  rw [splice_whole fresh]
  apply List.ext_getElem
  · -- There are as many words.
    rw [List.length_map, List.length_range, sized]
    rfl
  · -- Each word is the one that was written.
    intro i inside other
    have small : i < 32 := by
      rw [List.length_map, List.length_range] at inside
      exact inside
    rw [List.getElem_map, List.getElem_range, held i small, List.getD_eq_getElem?_getD,
      List.getElem?_eq_getElem other]
    rfl

end PersistentBitmap

/-- The first sector of a file is in the first slot. -/
theorem FileHeader.block_zero (disk : Disk) (hdr : FileHeader) :
    hdr.block disk 0 = hdr.dataSector 0 := by
  unfold block blockSlot slot
  rw [if_pos (by decide), if_pos (by decide)]

/-- The header at a sector of the disk. -/
def headerAt (disk : Disk) (sector : Int) : FileHeader := .ofSector (disk sector)

/-- A header is read from its sector. -/
theorem FileHeader.fetchFrom_reads {disk : Disk} {sector : Int} (onDisk : OnDisk sector) :
    Fs.Reads disk (fetchFrom sector) (headerAt disk sector) :=
  (Fs.Reads.sector onDisk).bind (Fs.Reads.pure disk _)

/-- Opening a file reads its header. -/
theorem OpenFile.new_reads {disk : Disk} {sector : Int} (onDisk : OnDisk sector) :
    Fs.Reads disk (OpenFile.new sector) ⟨headerAt disk sector, 0⟩ :=
  (FileHeader.fetchFrom_reads onDisk).bind (Fs.Reads.pure disk _)

namespace OpenFile

variable {disk after : Disk} {hdr : FileHeader} {file : OpenFile}

/-- What `WriteAt` leaves of a file that has sectors enough for it. -/
structure Written (disk after : Disk) (hdr : FileHeader) (source : List Byte) (position : Nat) :
    Prop where
  stored : after hdr.selfSector =
    FileHeader.toSector { hdr with limit := (position + source.length : Nat) }
  bytes : ∀ k < position + source.length, hdr.byteAt after k =
    if position ≤ k then source.getD (k - position) 0 else hdr.byteAt disk k
  frame : ∀ s, s ≠ hdr.selfSector → (∀ n < hdr.nsectors.toNat, s ≠ hdr.block disk n) →
    after s = disk s

/-- The limit of a file does not matter for where its bytes are. -/
theorem byteAt_limit (disk : Disk) (hdr : FileHeader) (limit : Int) (k : Nat) :
    FileHeader.byteAt disk { hdr with limit } k = hdr.byteAt disk k := rfl

/-- The part of `WriteAt` after the file has been enlarged. -/
theorem store_yields (file : OpenFile) (laid : hdr.Laid disk) {source : List Byte} {position : Nat}
    (some : 0 < source.length) (fits : ((position + source.length : Nat) : Int) ≤ hdr.capacity)
    (same : file.hdr = hdr.setFileLimit (position + source.length)) :
    Fs.Yields disk (file.storeAt source position) fun _ after =>
      file.hdr = { hdr with limit := (position + source.length : Nat) } ∧
        Written disk after hdr source position := by
  -- The file's header is the enlarged one, with its new end.
  have limited : file.hdr = { hdr with limit := (position + source.length : Nat) } := by
    rw [same]
    unfold FileHeader.setFileLimit
    rw [if_neg (by omega)]
    simp only [Int.natCast_add]
  have self : file.hdr.selfSector = hdr.selfSector := by rw [limited]
  unfold storeAt
  rw [self]
  refine Fs.writeSector_bind laid.self ?_
  -- First the header is stored.
  have stored := Function.update_self hdr.selfSector file.hdr.toSector disk
  have kept : ∀ s, s ≠ hdr.selfSector →
      Function.update disk hdr.selfSector file.hdr.toSector s = disk s :=
    fun s other => Function.update_of_ne other _ _
  generalize Function.update disk hdr.selfSector file.hdr.toSector = middle at stored kept ⊢
  -- The header is not among the sectors of the file.
  have index : hdr.dataSector numDirect ≠ 0 →
      middle (hdr.dataSector numDirect) = disk (hdr.dataSector numDirect) :=
    fun used => kept _ (laid.index_inRange used).2
  have moved : file.hdr.Laid middle := by
    rw [limited]
    exact laid.congr rfl rfl rfl rfl ⟨Int.natCast_nonneg _, fits⟩ index
  -- So the bytes are where they were, under the new header.
  have blocks : ∀ n, file.hdr.block middle n = hdr.block disk n :=
    fun n => FileHeader.slot_congr (by rw [limited]) index _
  have nsectors : file.hdr.nsectors = hdr.nsectors := by rw [limited]
  refine (mergeAt_yields moved some (by rw [limited])).mono fun _ after merged =>
    -- Then the bytes are merged into their sectors.
    ⟨limited, ?_, fun k inside => ?_, fun s other outside => ?_⟩
  · -- The merge does not touch the header.
    rw [merged.frame hdr.selfSector, stored, limited]
    intro n counted
    rw [blocks]
    exact (laid.block_inRange (nsectors ▸ counted)).2.1.symm
  · -- Inside and outside of the range each byte is as it should be.
    have written := merged.bytes k inside
    rw [limited, byteAt_limit, byteAt_limit] at written
    rw [written]
    split
    · rfl
    · -- A byte that is kept is in a sector that the header's own write left alone.
      have counted := laid.sector_counted (k := k) (by omega)
      exact FileHeader.byteAt_congr (FileHeader.slot_congr rfl index _)
        (kept _ (laid.block_inRange counted).2.1)
  · -- Any other sector is untouched by both writes.
    rw [merged.frame s, kept s other]
    intro n counted
    rw [blocks]
    exact outside n (nsectors ▸ counted)

/-- `WriteAt` on a file that has sectors enough. -/
theorem writeAtNested_within (depth : Nat) (laid : file.hdr.Laid disk) (source : List Byte)
    (position : Nat) (some : 0 < source.length) (started : (position : Int) ≤ file.hdr.limit)
    (fits : ((position + source.length : Nat) : Int) ≤ file.hdr.capacity) :
    Fs.Yields disk (writeAtNested (depth + 1) file source position) fun given after =>
      given = ((source.length : Int), { file with
        hdr := { file.hdr with limit := (position + source.length : Nat) } }) ∧
      Written disk after file.hdr source position := by
  -- The end of the write is an int.
  have sizes := laid.sizes
  have small : file.hdr.capacity ≤ 7168 := by
    simp only [sectorSize] at sizes
    omega
  unfold writeAtNested
  rw [if_neg (by omega)]
  refine (intSum_reads disk (by omega) (by omega)).bind ?_
  -- The file is large enough already.
  unfold enlarge
  rw [if_neg (by omega)]
  refine (Fs.Reads.pure disk _).bind ?_
  -- What is left is to store the header and the bytes.
  have stores := store_yields { file with
    hdr := file.hdr.setFileLimit (position + source.length) } laid some fits rfl
  dsimp only at stores ⊢
  rw [Int.toNat_natCast]
  refine stores.bind ?_
  rintro _ after ⟨limited, written⟩
  refine Program.Yields.pure ⟨?_, written⟩
  rw [limited]

end OpenFile

/-- The header of the stored map of free sectors, whose one sector the map fills. -/
structure MapFile (disk : Disk) (hdr : FileHeader) : Prop where
  laid : hdr.Laid disk
  self : hdr.selfSector = freeMapSector
  limit : hdr.limit = 128
  single : hdr.nsectors = 1

/-- The map of free sectors as it is stored on the disk. -/
def storedMap (disk : Disk) (hdr : FileHeader) : PersistentBitmap :=
  PersistentBitmap.overlay (Bitmap.new numSectors) (hdr.bytesAt disk 0 128)

@[simp] theorem numBits_storedMap (disk : Disk) (hdr : FileHeader) :
    (storedMap disk hdr).numBits = numSectors := rfl

namespace MapFile

variable {disk after : Disk} {hdr : FileHeader} {file : OpenFile}

/-- The sector of the map is on the disk, and neither it nor any other slot holds the header. -/
theorem dataSector (mapFile : MapFile disk hdr) :
    OnDisk (hdr.dataSector 0) ∧ 0 < hdr.dataSector 0 := by
  have counted : 0 < hdr.nsectors.toNat := by rw [mapFile.single]; decide
  obtain ⟨onDisk, -, positive⟩ := mapFile.laid.block_inRange counted
  rw [FileHeader.block_zero] at onDisk positive
  exact ⟨onDisk, positive⟩

/-- The stored map depends on its own sector only. -/
theorem storedMap_congr (hdr : FileHeader)
    (same : after (hdr.dataSector 0) = disk (hdr.dataSector 0)) :
    storedMap after hdr = storedMap disk hdr := by
  unfold storedMap FileHeader.bytesAt
  congr 1
  apply List.map_congr_left
  intro k member
  have inside : k < 128 := List.mem_range.mp member
  have first : (0 + k) / sectorSize = 0 := by
    rw [Nat.zero_add]
    exact Nat.div_eq_of_lt inside
  apply FileHeader.byteAt_congr
  · rw [first, FileHeader.block_zero, FileHeader.block_zero]
  · rw [first, FileHeader.block_zero, same]

/-- The map file stays one as long as nobody writes to its sector, which may hold anything. -/
theorem congr (mapFile : MapFile disk hdr) : MapFile after hdr where
  laid := by
    have noIndex : hdr.dataSector numDirect = 0 := by
      by_contra there
      have many := mapFile.laid.index_used.mp there
      rw [mapFile.single] at many
      exact absurd many (by decide)
    exact mapFile.laid.congr rfl rfl rfl rfl mapFile.laid.limit fun there => absurd noIndex there
  self := mapFile.self
  limit := mapFile.limit
  single := mapFile.single

/-- The stored map is read from its file. -/
theorem fetchFrom_reads (mapFile : MapFile disk hdr) (file : OpenFile) (same : file.hdr = hdr) :
    Fs.Reads disk (PersistentBitmap.fetchFrom (Bitmap.new numSectors) file)
      (storedMap disk hdr) := by
  subst same
  have all : ((4 * (Bitmap.new numSectors).map.length : Nat) : Int) = 128 := by
    rw [PersistentBitmap.length_map rfl]
    rfl
  unfold PersistentBitmap.fetchFrom
  rw [all]
  refine (OpenFile.readAt_reads mapFile.laid 0 (by decide) (by decide)).bind ?_
  rw [mapFile.limit]
  exact Fs.Reads.pure disk _

/-- A map whose bytes have been written to its file is the one that is stored. -/
theorem storedMap_written {map : PersistentBitmap} (all : map.numBits = numSectors)
    (written : OpenFile.Written disk after hdr (PersistentBitmap.bytes map) 0) :
    storedMap after hdr = map := by
  have long : (PersistentBitmap.bytes map).length = 128 := by
    rw [PersistentBitmap.length_bytes, PersistentBitmap.length_map all]
  -- The file holds the bytes of the map.
  have held : hdr.bytesAt after 0 128 = PersistentBitmap.bytes map := by
    apply List.ext_getElem (by rw [FileHeader.length_bytesAt, long])
    intro k inside other
    have here := written.bytes k (by omega)
    rw [if_pos (Nat.zero_le k), Nat.sub_zero] at here
    simp only [FileHeader.bytesAt, List.getElem_map, List.getElem_range, Nat.zero_add, here,
      List.getD_eq_getElem?_getD, List.getElem?_eq_getElem other, Option.getD_some]
  unfold storedMap
  rw [held]
  exact PersistentBitmap.overlay_bytes all

/-- The map is written back in its place, and its header stays as it is. -/
theorem writeBack_yields (depth : Nat) (file : OpenFile) (mapFile : MapFile disk file.hdr)
    {map : PersistentBitmap} (all : map.numBits = numSectors) :
    Fs.Yields disk (file.writeAtNested (depth + 1) (PersistentBitmap.bytes map) 0)
      fun given after => given = (128, file) ∧ after freeMapSector = file.hdr.toSector ∧
        storedMap after file.hdr = map ∧
        ∀ s, s ≠ freeMapSector → s ≠ file.hdr.dataSector 0 → after s = disk s := by
  -- The map is as long as its file, so no sector is needed.
  have long : (PersistentBitmap.bytes map).length = 128 := by
    rw [PersistentBitmap.length_bytes, PersistentBitmap.length_map all]
  have capacity := mapFile.laid.capacity
  rw [mapFile.single] at capacity
  have limit := mapFile.limit
  have writes := OpenFile.writeAtNested_within depth mapFile.laid (PersistentBitmap.bytes map) 0
    (by omega) (by omega) (by rw [long, capacity]; decide)
  refine writes.mono ?_
  rintro given after ⟨rfl, written⟩
  -- The map's own header does not change, since its length is always the same.
  have same : { file.hdr with limit := ((0 + (PersistentBitmap.bytes map).length : Nat) : Int) } =
      file.hdr := by
    rw [long, Nat.zero_add]
    obtain ⟨hdr, position⟩ := file
    dsimp only at limit
    obtain ⟨_, _, _, _, _, _, _, _⟩ := hdr
    cases limit
    rfl
  rw [same]
  refine ⟨by rw [long]; rfl, ?_, ?_, fun s other outside => ?_⟩
  · -- Its header is stored as it was.
    have stored := written.stored
    rw [same, mapFile.self] at stored
    exact stored
  · -- The bytes are those of the map.
    exact storedMap_written all written
  · -- Nothing else is written, since the map has one sector.
    refine written.frame s (mapFile.self ▸ other) fun n counted => ?_
    rw [mapFile.single] at counted
    obtain rfl : n = 0 := by
      have : n < 1 := counted
      omega
    rw [FileHeader.block_zero]
    exact outside

end MapFile

/-- A header that has got the next slots filled, whatever else has changed on the disk. -/
structure FileHeader.Grew (disk after : Disk) (hdr hdr' : FileHeader) (wanted : Nat)
    (fresh : List Nat) : Prop where
  nsectors : hdr'.nsectors = hdr.nsectors + wanted
  capacity : hdr'.capacity = hdr'.nsectors * sectorSize
  selfSector : hdr'.selfSector = hdr.selfSector
  type : hdr'.type = hdr.type
  slots : ∀ j, hdr'.slot after j = if j < usedSlots hdr.nsectors.toNat then hdr.slot disk j
    else (fresh.getD (j - usedSlots hdr.nsectors.toNat) 0 : Nat)

/-- A header that `Allocate` has filled has grown. -/
theorem FileHeader.Extended.grew {disk after : Disk} {hdr hdr' : FileHeader} {wanted : Nat}
    {fresh : List Nat} (extended : Extended disk after hdr hdr' wanted fresh) :
    Grew disk after hdr hdr' wanted fresh := by
  have fields := extended.fields
  refine ⟨?_, ?_, ?_, ?_, extended.slots⟩
  · rw [fields]
  · rw [fields]
  · rw [fields]
  · rw [fields]

/-- A header stays grown if its index sector, if it has one, keeps what it holds. -/
theorem FileHeader.Grew.congr {disk middle after : Disk} {hdr hdr' : FileHeader} {wanted : Nat}
    {fresh : List Nat} (grew : Grew disk middle hdr hdr' wanted fresh)
    (index : hdr'.dataSector numDirect ≠ 0 →
      after (hdr'.dataSector numDirect) = middle (hdr'.dataSector numDirect)) :
    Grew disk after hdr hdr' wanted fresh :=
  ⟨grew.nsectors, grew.capacity, grew.selfSector, grew.type, fun j =>
    (slot_congr rfl index j).trans (grew.slots j)⟩

namespace FileHeader.Grew

variable {disk after : Disk} {hdr hdr' : FileHeader} {wanted : Nat} {fresh : List Nat}

/-- A slot of the grown header is an old one or a new one. -/
theorem slot_cases (grew : Grew disk after hdr hdr' wanted fresh) (mapped : hdr.Mapped disk)
    (j : Nat) : (hdr.slot disk j ≠ 0 ∧ hdr'.slot after j = hdr.slot disk j) ∨
      (hdr.slot disk j = 0 ∧ ∃ sector ∈ fresh, hdr'.slot after j = sector ∧
        fresh.getD (j - usedSlots hdr.nsectors.toNat) 0 = sector ∧
        usedSlots hdr.nsectors.toNat ≤ j ∧ j - usedSlots hdr.nsectors.toNat < fresh.length) ∨
      (hdr.slot disk j = 0 ∧ hdr'.slot after j = 0) := by
  rw [grew.slots]
  -- A slot was in use before, or gets a new sector, or stays empty.
  by_cases old : j < usedSlots hdr.nsectors.toNat
  · rw [if_pos old]
    exact .inl ⟨(mapped.used j).mpr old, rfl⟩
  · have empty : hdr.slot disk j = 0 := by
      by_contra there
      exact old ((mapped.used j).mp there)
    -- A new slot has its number among the new sectors.
    rw [if_neg old]
    by_cases new : j - usedSlots hdr.nsectors.toNat < fresh.length
    · refine .inr (.inl ⟨empty, _, ?_, rfl, rfl, by omega, new⟩)
      rw [List.getD_eq_getElem?_getD, List.getElem?_eq_getElem new, Option.getD_some]
      exact List.getElem_mem new
    · -- A slot beyond is empty, as it was.
      rw [List.getD_eq_default _ _ (by omega)]
      exact .inr (.inr ⟨empty, rfl⟩)

/-- A header that got sectors of the disk has them in its slots. -/
theorem mapped (grew : Grew disk after hdr hdr' wanted fresh) (mapped : hdr.Mapped disk)
    (fits : hdr.nsectors.toNat + wanted ≤ numDirect + numInDirect)
    (long : fresh.length = hdr.neededSlots wanted)
    (onDisk : ∀ sector ∈ fresh, 0 < sector ∧ sector < numSectors) : hdr'.Mapped after := by
  have counted := mapped.counted
  -- The number of slots in use goes up by the sectors that were found.
  have total : hdr'.nsectors.toNat = hdr.nsectors.toNat + wanted := by
    rw [grew.nsectors]
    omega
  have reach : usedSlots hdr.nsectors.toNat + fresh.length =
      usedSlots (hdr.nsectors.toNat + wanted) := by
    rw [long]
    unfold neededSlots usedSlots
    split <;> split <;> omega
  refine ⟨?_, grew.capacity, fun j => ?_, fun j there => ?_⟩
  · -- The number of sectors fits the header.
    rw [grew.nsectors]
    omega
  · -- A slot is used exactly if it is below that number.
    rw [total, ← reach]
    rcases grew.slot_cases mapped j with ⟨there, same⟩ | ⟨_, s, member, same, -, above, below⟩ |
      ⟨empty, same⟩
    · -- An old slot was used before.
      rw [same]
      have := (mapped.used j).mp there
      exact ⟨fun _ => by omega, fun _ => there⟩
    · -- A new slot has a sector of the disk, which is not 0.
      rw [same]
      have := (onDisk s member).1
      exact ⟨fun _ => by omega, fun _ => by omega⟩
    · rw [same]
      refine ⟨fun wrong => absurd rfl wrong, fun below => ?_⟩
      -- A slot within reach is an old one, or one of the new ones, which are not 0.
      have held := grew.slots j
      have old : ¬ j < usedSlots hdr.nsectors.toNat := fun old =>
        absurd empty ((mapped.used j).mpr old)
      have new : j - usedSlots hdr.nsectors.toNat < fresh.length := by omega
      rw [if_neg old, same, List.getD_eq_getElem?_getD, List.getElem?_eq_getElem new,
        Option.getD_some] at held
      have := (onDisk _ (List.getElem_mem new)).1
      omega
  · -- Every sector in a slot is on the disk.
    rcases grew.slot_cases mapped j with ⟨old, same⟩ | ⟨_, s, member, same, -⟩ | ⟨-, same⟩
    · rw [same]
      exact mapped.onDisk j old
    · rw [same]
      exact ⟨by omega, by exact_mod_cast (onDisk s member).2⟩
    · exact absurd same there

/-- A header that got sectors that were free is laid out again. -/
theorem laid (grew : Grew disk after hdr hdr' wanted fresh) (laid : hdr.Laid disk)
    (fits : hdr.nsectors.toNat + wanted ≤ numDirect + numInDirect)
    (long : fresh.length = hdr.neededSlots wanted) (nodup : fresh.Nodup)
    (onDisk : ∀ sector ∈ fresh, 0 < sector ∧ sector < numSectors)
    (other : ∀ sector ∈ fresh, (sector : Int) ≠ hdr.selfSector ∧
      ∀ j, hdr.slot disk j ≠ (sector : Int))
    (limit : 0 ≤ hdr'.limit ∧ hdr'.limit ≤ hdr'.capacity) : hdr'.Laid after := by
  -- Each slot has a sector of the disk.
  have again := grew.mapped laid.mapped fits long onDisk
  refine ⟨again.counted, again.capacity, limit, grew.selfSector ▸ laid.self, again.used,
    fun j there => ⟨again.onDisk j there, ?_⟩, fun i j there same => ?_⟩
  · -- The header's own sector is not among them.
    rw [grew.selfSector]
    rcases grew.slot_cases laid.mapped j with ⟨old, same⟩ | ⟨_, s, member, same, -⟩ | ⟨-, same⟩
    · rw [same]
      exact (laid.inRange j old).2
    · rw [same]
      exact (other s member).1
    · exact absurd same there
  · -- No two slots have the same sector.
    rcases grew.slot_cases laid.mapped i with ⟨old, here⟩ |
      ⟨_, s, member, here, named, above, below⟩ | ⟨-, here⟩
    · -- The first is an old slot.
      rcases grew.slot_cases laid.mapped j with ⟨_, also⟩ | ⟨_, s, member, also, -⟩ | ⟨-, also⟩
      · -- Both are old.
        rw [here, also] at same
        exact laid.apart i j old same
      · -- One is old, and a new sector was not among the old ones.
        rw [here, also] at same
        exact absurd same ((other s member).2 i)
      · -- The other is empty.
        rw [same, also] at there
        exact absurd rfl there
    · -- The first is a new slot.
      rcases grew.slot_cases laid.mapped j with ⟨_, also⟩ |
        -- The other is old.
        ⟨_, t, member', also, named', above', below'⟩ | ⟨-, also⟩
      · rw [here, also] at same
        exact absurd same.symm ((other s member).2 j)
      · -- Both are new, and no sector is among the new ones twice.
        rw [here, also] at same
        have twice : s = t := by exact_mod_cast same
        rw [← named, ← named', List.getD_eq_getElem?_getD, List.getElem?_eq_getElem below,
          List.getD_eq_getElem?_getD, List.getElem?_eq_getElem below', Option.getD_some,
          Option.getD_some] at twice
        have := (List.Nodup.getElem_inj_iff nodup).mp twice
        omega
      · -- The other is empty.
        rw [same, also] at there
        exact absurd rfl there
    · -- The first is empty.
      exact absurd here there

end FileHeader.Grew

/-- The header of the map of free sectors, and the map itself, as they are on the disk. -/
abbrev mapHeader (disk : Disk) : FileHeader := headerAt disk freeMapSector

/-- The map of free sectors that is on the disk. -/
def freeMapOn (disk : Disk) : PersistentBitmap := storedMap disk (mapHeader disk)

/-- Is the sector marked in the map that is on the disk? -/
def Marked (disk : Disk) (sector : Int) : Prop := (freeMapOn disk).bit sector.toNat = true

/-- The map reads the same as long as its header and its sector are kept. -/
theorem freeMapOn_congr {disk after : Disk} (first : after freeMapSector = disk freeMapSector)
    (second : after ((mapHeader disk).dataSector 0) = disk ((mapHeader disk).dataSector 0)) :
    mapHeader after = mapHeader disk ∧ freeMapOn after = freeMapOn disk := by
  have header : mapHeader after = mapHeader disk := congrArg FileHeader.ofSector first
  refine ⟨header, ?_⟩
  unfold freeMapOn
  rw [header]
  exact MapFile.storedMap_congr _ second

/-- A file apart from the map of free sectors, with all its sectors marked there. -/
structure Ready (disk : Disk) (hdr : FileHeader) : Prop where
  laid : hdr.Laid disk
  mapFile : MapFile disk (mapHeader disk)
  ofDisk : (freeMapOn disk).OfDisk
  mapMarked : Marked disk ((mapHeader disk).dataSector 0)
  selfMarked : Marked disk hdr.selfSector
  slotMarked : ∀ j, hdr.slot disk j ≠ 0 → Marked disk (hdr.slot disk j)
  selfApart : hdr.selfSector ≠ freeMapSector ∧ hdr.selfSector ≠ (mapHeader disk).dataSector 0
  slotApart : ∀ j, hdr.slot disk j ≠ (mapHeader disk).dataSector 0

/-- A file that can be given sectors: none of its own is that of the map. -/
structure Growable (disk : Disk) (hdr : FileHeader) : Prop where
  laid : hdr.Laid disk
  mapFile : MapFile disk (mapHeader disk)
  ofDisk : (freeMapOn disk).OfDisk
  mapMarked : Marked disk ((mapHeader disk).dataSector 0)
  slotApart : ∀ j, hdr.slot disk j ≠ (mapHeader disk).dataSector 0

/-- A file that is ready to be written can be given sectors. -/
theorem Ready.growable {disk : Disk} {hdr : FileHeader} (ready : Ready disk hdr) :
    Growable disk hdr :=
  ⟨ready.laid, ready.mapFile, ready.ofDisk, ready.mapMarked, ready.slotApart⟩

namespace OpenFile

variable {disk after : Disk} {hdr : FileHeader} {file : OpenFile}

/-- How many more sectors a file needs to reach up to `past`. -/
def wantedFor (hdr : FileHeader) (past : Nat) : Nat :=
  divRoundUp (past - hdr.capacity).toNat sectorSize

/-- Sectors that are found are not those that are marked. -/
theorem fresh_unmarked {fresh : List Nat} {freeMap' : Bitmap}
    (takes : (freeMapOn disk).Takes fresh freeMap') {sector : Nat} (member : sector ∈ fresh)
    {marked : Int} (isMarked : Marked disk marked) :
    (sector : Int) ≠ marked := by
  intro same
  have clear := (takes.clear sector member).2
  unfold Marked at isMarked
  rw [← same, Int.toNat_natCast, clear] at isMarked
  cases isMarked

/-- What is left when a file has been given the sectors for a write up to `past`. -/
structure Enlarged (disk after : Disk) (hdr hdr' : FileHeader) (past : Nat) (fresh : List Nat) :
    Prop where
  takes : (freeMapOn disk).Takes fresh (freeMapOn after)
  long : fresh.length = hdr.neededSlots (wantedFor hdr past)
  grew : FileHeader.Grew disk after hdr hdr' (wantedFor hdr past) fresh
  limit : hdr'.limit = hdr.limit
  keepsMap : mapHeader after = mapHeader disk
  frame : ∀ s, s ≠ freeMapSector → s ≠ (mapHeader disk).dataSector 0 →
    (s ≠ hdr'.dataSector numDirect ∨ hdr'.dataSector numDirect = 0) → after s = disk s

/-- The assertion on `Allocate` is passed when there are sectors enough. -/
theorem mustAllocate_yields (laid : hdr.Laid disk) (ofDisk : (freeMapOn disk).OfDisk) {past : Nat}
    (grows : hdr.capacity < past) (fits : past ≤ maxFileSize)
    (enough : hdr.neededSlots (wantedFor hdr past) ≤ (freeMapOn disk).numClear) :
    Fs.Yields disk (hdr.mustAllocate (freeMapOn disk) (past - hdr.capacity))
      fun given after => ∃ fresh, FileHeader.Allocated disk after hdr given.1 (freeMapOn disk)
        given.2 (wantedFor hdr past) fresh := by
  unfold FileHeader.mustAllocate
  refine (FileHeader.allocate_yields laid.mapped ofDisk (by omega) (by omega) enough).bind ?_
  rintro _ after ⟨hdr', freeMap', fresh, rfl, allocated⟩
  refine (Fs.Reads.assert after rfl).bind ?_
  exact Program.Yields.pure ⟨fresh, allocated⟩

/-- Enlarging a file gives it free sectors and marks them in the stored map. -/
theorem enlarge_grows (depth : Nat) (ready : Growable disk file.hdr) {past : Nat}
    (grows : file.hdr.capacity < past) (fits : past ≤ maxFileSize)
    (enough : file.hdr.neededSlots (wantedFor file.hdr past) ≤ (freeMapOn disk).numClear) :
    Fs.Yields disk (file.enlarge past fun freeMapFile freeMap => do
        let _ ← writeAtNested (depth + 1) freeMapFile (PersistentBitmap.bytes freeMap) 0)
      fun hdr' after => ∃ fresh, Enlarged disk after file.hdr hdr' past fresh := by
  have sizes := ready.laid.sizes
  -- The map's file is opened and the map is read.
  unfold enlarge
  rw [if_pos grows]
  refine (new_reads (by decide)).bind ?_
  refine (ready.mapFile.fetchFrom_reads ⟨mapHeader disk, 0⟩ rfl).bind ?_
  -- The sectors are found, and the header has them.
  refine Program.Yields.bind (mustAllocate_yields ready.laid ready.ofDisk grows fits enough) ?_
  rintro ⟨hdr', freeMap'⟩ middle ⟨fresh, takes, long, extended⟩
  dsimp only at takes extended ⊢
  have mapSector := ready.mapFile.dataSector
  have freshAt : ∀ s ∈ fresh, 0 < s ∧ s < numSectors := fun s member =>
    ready.ofDisk.free (takes.clear s member).1 (takes.clear s member).2
  have fields := extended.fields
  -- The index sector is an old slot of the file or a sector that was free.
  have indexApart : hdr'.dataSector numDirect ≠ 0 →
      hdr'.dataSector numDirect ≠ freeMapSector ∧
        hdr'.dataSector numDirect ≠ (mapHeader disk).dataSector 0 := by
    intro there
    -- The header names it, as a slot used before or a new one.
    refine ⟨there, ?_⟩
    rw [← FileHeader.slot_index middle hdr', extended.slots]
    split
    · exact ready.slotApart numDirect
    · rename_i new
      rw [← FileHeader.slot_index middle hdr', extended.slots, if_neg new] at there
      have inside : numDirect - FileHeader.usedSlots file.hdr.nsectors.toNat < fresh.length := by
        by_contra past
        rw [List.getD_eq_default _ _ (by omega)] at there
        exact there rfl
      rw [List.getD_eq_getElem?_getD, List.getElem?_eq_getElem inside, Option.getD_some]
      exact fresh_unmarked takes (List.getElem_mem inside) ready.mapMarked
  -- So the map's own header is still on the disk.
  have mapKept : middle freeMapSector = disk freeMapSector := by
    refine extended.frame _ ?_
    by_cases there : hdr'.dataSector numDirect = 0
    · exact .inr there
    · exact .inl (indexApart there).1.symm
  -- The map is written back, with the new sectors marked.
  have written : Fs.Yields middle (do
        let _ ← writeAtNested (depth + 1) ⟨mapHeader disk, 0⟩ (PersistentBitmap.bytes freeMap') 0)
      fun _ after => after freeMapSector = (mapHeader disk).toSector ∧
        storedMap after (mapHeader disk) = freeMap' ∧
        ∀ s, s ≠ freeMapSector → s ≠ (mapHeader disk).dataSector 0 → after s = middle s := by
    refine Program.Yields.bind (MapFile.writeBack_yields depth ⟨mapHeader disk, 0⟩
      ready.mapFile.congr takes.numBits) ?_
    rintro _ after ⟨rfl, holds⟩
    exact Program.Yields.pure holds
  -- The map's header is the same after that.
  refine Program.Yields.bind written ?_
  rintro _ after ⟨stored, map, kept⟩
  have sameHeader : mapHeader after = mapHeader disk := by
    unfold mapHeader headerAt
    rw [stored]
    exact FileHeader.ofSector_toSector ready.mapFile.laid.small
  refine Program.Yields.pure ⟨fresh, ?_, long, extended.grew.congr fun there => ?_, ?_, sameHeader,
    fun s notMap notBlock notIndex => ?_⟩
  · -- The sectors have been taken in the stored map.
    unfold freeMapOn
    rw [sameHeader, map]
    exact takes
  · -- The index sector has not been written by the map.
    exact kept _ (indexApart there).1 (indexApart there).2
  · -- The limit is that of the file.
    rw [extended.fields]
  · -- All other sectors are untouched.
    rw [kept s notMap notBlock]
    exact extended.frame s notIndex

/-- A file that is large enough is left as it is. -/
theorem enlarge_keeps (laid : file.hdr.Laid disk) {past : Nat} (fits : past ≤ file.hdr.capacity)
    (writeBack : OpenFile → PersistentBitmap → Fs Unit) :
    Fs.Yields disk (file.enlarge past writeBack) fun hdr' after =>
      ∃ fresh, Enlarged disk after file.hdr hdr' past fresh := by
  -- The file is large enough, so that no sector is wanted.
  have none : wantedFor file.hdr past = 0 := by
    unfold wantedFor
    rw [show (past - file.hdr.capacity : Int).toNat = 0 by omega]
    decide
  unfold enlarge
  rw [if_neg (by omega)]
  refine Program.Yields.pure ⟨[], .nil _, ?_, ⟨?_, laid.capacity, rfl, rfl, fun j => ?_⟩, rfl, rfl,
    fun _ _ _ _ => rfl⟩
  · -- No slot is needed.
    rw [none]
    unfold FileHeader.neededSlots
    rw [Nat.add_zero, Nat.sub_self]
    rfl
  · -- The number of sectors is the same.
    rw [none]
    simp
  · -- Every slot is an old one, or empty.
    split
    · rfl
    · rename_i past
      by_contra there
      exact past ((laid.used j).mp there)

/-- A file can be enlarged up to `past` if that fits a file, and sectors enough are free. -/
structure Affordable (disk : Disk) (hdr : FileHeader) (past : Nat) : Prop where
  fits : past ≤ maxFileSize
  enough : hdr.neededSlots (wantedFor hdr past) ≤ (freeMapOn disk).numClear

/-- Nothing more is needed for a file that is large enough. -/
theorem affordable_within (laid : hdr.Laid disk) {past : Nat} (within : past ≤ hdr.capacity) :
    Affordable disk hdr past := by
  have sizes := laid.sizes
  have none : wantedFor hdr past = 0 := by
    unfold wantedFor
    rw [Int.toNat_of_nonpos (by omega)]
    decide
  refine ⟨?_, ?_⟩
  · simp only [maxFileSize, numDirect, numInDirect, sectorSize] at *
    omega
  · rw [none]
    unfold FileHeader.neededSlots
    rw [Nat.add_zero, Nat.sub_self]
    exact Nat.zero_le _

/-- Enlarging a file gives it the sectors it needs, if it needs any. -/
theorem enlarge_yields (depth : Nat) (ready : Ready disk file.hdr) {past : Nat}
    (affordable : Affordable disk file.hdr past) :
    Fs.Yields disk (file.enlarge past fun freeMapFile freeMap => do
        let _ ← writeAtNested (depth + 1) freeMapFile (PersistentBitmap.bytes freeMap) 0)
      fun hdr' after => ∃ fresh, Enlarged disk after file.hdr hdr' past fresh := by
  by_cases grows : file.hdr.capacity < past
  · exact enlarge_grows depth ready.growable grows affordable.fits affordable.enough
  · exact enlarge_keeps ready.laid (by omega) _

/-- How many sectors a file has when it reaches up to `past`. -/
theorem reaches (laid : hdr.Laid disk) {past : Nat} (fits : past ≤ maxFileSize) :
    hdr.nsectors.toNat + wantedFor hdr past ≤ numDirect + numInDirect ∧
      past ≤ (hdr.nsectors.toNat + wantedFor hdr past) * sectorSize := by
  have sizes := laid.sizes
  unfold wantedFor divRoundUp
  simp only [maxFileSize, numDirect, numInDirect, sectorSize] at *
  split <;> omega

namespace Enlarged

variable {hdr' : FileHeader} {past : Nat} {fresh : List Nat}

/-- An enlarged file is laid out. -/
theorem laid (enlarged : Enlarged disk after hdr hdr' past fresh) (ready : Ready disk hdr)
    (fits : past ≤ maxFileSize) : hdr'.Laid after := by
  have sizes := ready.laid.sizes
  obtain ⟨counted, _⟩ := reaches ready.laid fits
  have grew := enlarged.grew
  -- The new sectors were not marked, and so are none of those that the file has.
  refine grew.laid ready.laid counted enlarged.long enlarged.takes.nodup
    (fun s member => ready.ofDisk.free (enlarged.takes.clear s member).1
      (enlarged.takes.clear s member).2)
    (fun s member => ⟨fresh_unmarked enlarged.takes member ready.selfMarked, fun j same => ?_⟩) ?_
  · -- A new sector is not one that the file has.
    have positive := (ready.ofDisk.free (enlarged.takes.clear s member).1
      (enlarged.takes.clear s member).2).1
    exact fresh_unmarked enlarged.takes member (ready.slotMarked j (by omega)) same.symm
  · -- The limit is within what the file can hold.
    have limit := ready.laid.limit
    have capacity := ready.laid.capacity
    rw [enlarged.limit, grew.capacity, grew.nsectors]
    simp only [sectorSize] at *
    omega

/-- The slots of an enlarged file are not the map's sector. -/
theorem slotApart (enlarged : Enlarged disk after hdr hdr' past fresh) (ready : Ready disk hdr)
    (j : Nat) : hdr'.slot after j ≠ (mapHeader disk).dataSector 0 := by
  have mapSector := ready.mapFile.dataSector
  rcases enlarged.grew.slot_cases ready.laid.mapped j with ⟨_, same⟩ | ⟨_, s, member, same, -⟩ |
    ⟨-, same⟩
  · rw [same]
    exact ready.slotApart j
  · rw [same]
    exact fresh_unmarked enlarged.takes member ready.mapMarked
  · rw [same]
    omega

end Enlarged

/-- What a call of `WriteAt` leaves that writes all of its bytes. -/
structure Wrote (disk after : Disk) (hdr hdr' : FileHeader) (source : List Byte) (position : Nat)
    (fresh : List Nat) : Prop where
  takes : (freeMapOn disk).Takes fresh (freeMapOn after)
  long : fresh.length = hdr.neededSlots (wantedFor hdr (position + source.length))
  grew : FileHeader.Grew disk after hdr hdr' (wantedFor hdr (position + source.length)) fresh
  laid : hdr'.Laid after
  limit : hdr'.limit = (position + source.length : Nat)
  stored : headerAt after hdr.selfSector = hdr'
  keepsMap : mapHeader after = mapHeader disk
  bytes : ∀ k < position + source.length, hdr'.byteAt after k =
    if position ≤ k then source.getD (k - position) 0 else hdr.byteAt disk k
  frame : ∀ s, s ≠ freeMapSector → s ≠ (mapHeader disk).dataSector 0 → s ≠ hdr.selfSector →
    (∀ j, hdr'.slot after j ≠ s) → after s = disk s

/-- `WriteAt` writes all of its bytes if the file can be enlarged for them. -/
theorem writeAt_yields (ready : Ready disk file.hdr) {source : List Byte} {position : Nat}
    (some : 0 < source.length) (started : (position : Int) ≤ file.hdr.limit)
    (affordable : Affordable disk file.hdr (position + source.length)) :
    Fs.Yields disk (file.writeAt source position) fun given after => ∃ hdr' fresh,
      given = ((source.length : Int), { file with hdr := hdr' }) ∧
        Wrote disk after file.hdr hdr' source position fresh := by
  -- The sum of the position and the length is an int.
  have sizes := ready.laid.sizes
  have small := affordable.fits
  simp only [maxFileSize, numDirect, numInDirect, sectorSize] at small
  obtain ⟨counted, reach⟩ := reaches ready.laid affordable.fits
  unfold writeAt writeAtNested
  rw [if_neg (by omega)]
  refine (intSum_reads disk (by omega) (by omega)).bind ?_
  rw [← Int.natCast_add]
  -- The file is enlarged.
  refine (enlarge_yields 0 ready affordable).bind ?_
  rintro hdr' middle ⟨fresh, enlarged⟩
  have laid := enlarged.laid ready affordable.fits
  have grew := enlarged.grew
  -- It is then large enough for the bytes.
  have room : ((position + source.length : Nat) : Int) ≤ hdr'.capacity := by
    have count := ready.laid.counted
    rw [grew.capacity, grew.nsectors]
    simp only [sectorSize] at *
    omega
  -- The header and the bytes are stored.
  have stores := store_yields { file with
    hdr := hdr'.setFileLimit (position + source.length) } laid some room rfl
  dsimp only at stores ⊢
  rw [Int.toNat_natCast, Int.natCast_add]
  refine stores.bind ?_
  rintro _ after ⟨limited, written⟩
  rw [limited]
  refine Program.Yields.pure ⟨_, fresh, rfl, ?_⟩
  -- Neither the header nor the sectors of the file are the map's.
  have self : hdr'.selfSector = file.hdr.selfSector := grew.selfSector
  have kept : ∀ s, s ≠ file.hdr.selfSector → (∀ j, hdr'.slot middle j ≠ s) →
      after s = middle s := fun s notSelf notSlot =>
    written.frame s (self ▸ notSelf) fun n _ => (notSlot _).symm
  -- So the map is as the enlargement has left it.
  have mapBlock := kept _ ready.selfApart.2.symm (enlarged.slotApart ready)
  have mapKept : after freeMapSector = middle freeMapSector := by
    exact written.frame _ (self ▸ ready.selfApart.1.symm) fun n inside =>
      (laid.block_inRange inside).2.2.ne
  have sameHeader : mapHeader after = mapHeader disk := by
    rw [← enlarged.keepsMap]
    unfold mapHeader headerAt
    rw [mapKept]
  -- The index sector of the file is not written either, so the slots are the same.
  have index : hdr'.dataSector numDirect ≠ 0 →
      after (hdr'.dataSector numDirect) = middle (hdr'.dataSector numDirect) := fun there =>
    written.frame _ (laid.index_inRange there).2 fun n inside => (laid.block_ne_index inside).symm
  have slots : ∀ j, FileHeader.slot after
      { hdr' with limit := ((position + source.length : Nat) : Int) } j = hdr'.slot middle j :=
    FileHeader.slot_congr rfl index
  have laidAfter : FileHeader.Laid after
      { hdr' with limit := ((position + source.length : Nat) : Int) } :=
    laid.congr rfl rfl rfl rfl ⟨Int.natCast_nonneg _, room⟩ index
  -- All that is claimed of the write, one by one.
  refine ⟨?_, enlarged.long, ⟨grew.nsectors, grew.capacity, self, grew.type, fun j => ?_⟩,
    laidAfter, rfl, ?_, sameHeader, fun k inside => ?_, fun s notMap notBlock notSelf notSlot => ?_⟩
  · -- The stored map has the new sectors marked.
    have sameMap : freeMapOn after = freeMapOn middle := by
      unfold freeMapOn
      rw [sameHeader, enlarged.keepsMap]
      exact MapFile.storedMap_congr _ mapBlock
    rw [sameMap]
    exact enlarged.takes
  · -- The header has its slots.
    rw [slots]
    exact grew.slots j
  · -- The header is stored in its sector.
    unfold headerAt
    rw [← self, written.stored]
    exact FileHeader.ofSector_toSector laidAfter.small
  · -- The bytes are those that were written, or those of before.
    rw [byteAt_limit, written.bytes k inside]
    split
    · rfl
    · -- A byte that is kept is in a sector that the file had before it was enlarged.
      have within := ready.laid.sector_counted (k := k) (by omega)
      have sameBlock : hdr'.block middle (k / sectorSize) =
          file.hdr.block disk (k / sectorSize) := by
        unfold FileHeader.block
        rw [grew.slots, if_pos (FileHeader.blockSlot_used within)]
      have within' : k / sectorSize < hdr'.nsectors.toNat := by
        rw [grew.nsectors]
        omega
      obtain ⟨-, -, positive⟩ := ready.laid.block_inRange within
      refine FileHeader.byteAt_congr sameBlock
        (enlarged.frame _ positive.ne' (ready.slotApart _) (.inl ?_))
      rw [← sameBlock]
      exact laid.block_ne_index within'
  · -- No other sector has been written.
    have notSlot' : ∀ j, hdr'.slot middle j ≠ s := fun j => slots j ▸ notSlot j
    rw [kept s notSelf notSlot']
    refine enlarged.frame s notMap notBlock (.inl ?_)
    rw [← FileHeader.slot_index middle]
    exact (notSlot' _).symm

namespace Wrote

variable {hdr' : FileHeader} {source : List Byte} {position : Nat} {fresh : List Nat}

/-- Every sector that was marked before a write is marked afterwards. -/
theorem marked (wrote : Wrote disk after hdr hdr' source position fresh) {sector : Int}
    (before : Marked disk sector) : Marked after sector := by
  unfold Marked at *
  rw [wrote.takes.bit, before, Bool.or_true]

/-- The sectors that a write found are marked afterwards. -/
theorem marked_fresh (wrote : Wrote disk after hdr hdr' source position fresh) {sector : Nat}
    (member : sector ∈ fresh) : Marked after sector := by
  unfold Marked
  rw [wrote.takes.bit, Int.toNat_natCast, decide_eq_true member, Bool.true_or]

/-- A file that has been written is ready to be written again. -/
theorem ready (wrote : Wrote disk after hdr hdr' source position fresh) (ready : Ready disk hdr) :
    Ready after hdr' := by
  have self := wrote.grew.selfSector
  have mapSector := ready.mapFile.dataSector
  refine ⟨wrote.laid, ?_, wrote.takes.ofDisk ready.ofDisk, ?_, ?_, fun j there => ?_, ?_,
    fun j => ?_⟩
  · -- The map is where it was, and its own sector marked.
    rw [wrote.keepsMap]
    exact ready.mapFile.congr
  · rw [wrote.keepsMap]
    exact wrote.marked ready.mapMarked
  · -- The header's own sector is marked.
    rw [self]
    exact wrote.marked ready.selfMarked
  -- A slot is an old one, or has one of the sectors just marked.
  · rcases wrote.grew.slot_cases ready.laid.mapped j with ⟨old, same⟩ | ⟨_, s, member, same, -⟩ | ⟨-, same⟩
    · -- It was marked before.
      rw [same]
      exact wrote.marked (ready.slotMarked j old)
    · -- It has just been marked.
      rw [same]
      exact wrote.marked_fresh member
    · -- The slot is empty.
      exact absurd same there
  · -- The header is not the map's.
    rw [self, wrote.keepsMap]
    exact ready.selfApart
  · -- Nor is any slot of the file.
    rw [wrote.keepsMap]
    rcases wrote.grew.slot_cases ready.laid.mapped j with ⟨_, same⟩ | ⟨_, s, member, same, -⟩ | ⟨-, same⟩
    · -- It was in use before.
      rw [same]
      exact ready.slotApart j
    · -- A new sector was not marked, and the map's was.
      rw [same]
      exact fresh_unmarked wrote.takes member ready.mapMarked
    · -- The slot is empty.
      rw [same]
      omega

end Wrote

/-- A sum that does not fit an int ends the program. -/
theorem intSum_refuses (disk : Disk) {x y : Int} (large : 2 ^ 31 ≤ x + y) :
    Fs.Refuses disk (intSum x y) :=
  Program.Refuses.bind_first (Program.Refuses.assert (by simpa using fun _ => large))

/-- Sectors that are too few, or too many for a file, fail the assertion on `Allocate`. -/
theorem mustAllocate_short {map : Bitmap} (nonneg : 0 ≤ hdr.capacity) {past : Nat}
    (grows : hdr.capacity < past)
    (short : past ≤ maxFileSize → map.numClear < wantedFor hdr past) :
    Fs.Refuses disk (hdr.mustAllocate map (past - hdr.capacity)) := by
  have refused : ∀ {hdr'' freeMap'}, Fs.Reads disk
      (hdr.allocate map (past - hdr.capacity)) (false, hdr'', freeMap') →
      Fs.Refuses disk (hdr.mustAllocate map (past - hdr.capacity)) :=
    fun reads => reads.bind_refuses (Program.Refuses.bind_first (Program.Refuses.assert rfl))
  by_cases fits : past ≤ maxFileSize
  · exact refused (FileHeader.allocate_short (by omega) (by omega) nonneg (short fits))
  · exact refused (FileHeader.allocate_large (by omega) (by omega))

/-- Sectors that cannot be found fail the assertion on `Allocate`. -/
theorem mustAllocate_refuses (laid : hdr.Laid disk) (ofDisk : (freeMapOn disk).OfDisk) {past : Nat}
    (grows : hdr.capacity < past) (unaffordable : ¬ Affordable disk hdr past) :
    Fs.Refuses disk (hdr.mustAllocate (freeMapOn disk) (past - hdr.capacity)) := by
  have sizes := laid.sizes
  by_cases short : past ≤ maxFileSize → (freeMapOn disk).numClear < wantedFor hdr past
  · exact mustAllocate_short (by omega) grows short
  · rw [Classical.not_imp] at short
    obtain ⟨fits, short⟩ := short
    refine Program.Refuses.bind_first (FileHeader.allocate_refuses laid.mapped ofDisk
      (by omega) (by omega) (by unfold wantedFor at short; omega) ?_)
    by_contra enough
    exact unaffordable ⟨fits, by unfold wantedFor; omega⟩

/-- `WriteAt` aborts if the sectors that it takes are not found. -/
theorem writeAt_unallocated (mapFile : MapFile disk (mapHeader disk)) {source : List Byte}
    {position : Nat} (some : 0 < source.length) (started : (position : Int) ≤ file.hdr.limit)
    (grows : file.hdr.capacity < (position + source.length : Nat))
    (refuses : Fs.Refuses disk (file.hdr.mustAllocate (freeMapOn disk)
      ((position + source.length : Nat) - file.hdr.capacity))) :
    Fs.Refuses disk (file.writeAt source position) := by
  unfold writeAt writeAtNested
  rw [if_neg (by omega)]
  -- The sum overflows, or the file cannot be made large enough.
  by_cases small : (position : Int) + source.length < 2 ^ 31
  swap
  · -- The sum overflows, and the assertion on it fails.
    exact Program.Refuses.bind_first (intSum_refuses disk (by omega))
  refine (intSum_reads disk (by omega) small).bind_refuses ?_
  refine Program.Refuses.bind_first ?_
  rw [← Int.natCast_add]
  -- The file has to grow, and the allocation fails.
  unfold enlarge
  rw [if_pos grows]
  refine (new_reads (by decide)).bind_refuses ?_
  refine (mapFile.fetchFrom_reads ⟨mapHeader disk, 0⟩ rfl).bind_refuses ?_
  exact Program.Refuses.bind_first refuses

/-- `WriteAt` aborts if the file cannot be enlarged as far as it takes. -/
theorem writeAt_refuses (laid : file.hdr.Laid disk) (mapFile : MapFile disk (mapHeader disk))
    (ofDisk : (freeMapOn disk).OfDisk) {source : List Byte} {position : Nat}
    (some : 0 < source.length) (started : (position : Int) ≤ file.hdr.limit)
    (unaffordable : ¬ Affordable disk file.hdr (position + source.length)) :
    Fs.Refuses disk (file.writeAt source position) := by
  have sizes := laid.sizes
  have grows : file.hdr.capacity < (position + source.length : Nat) := by
    by_contra enough
    exact unaffordable (affordable_within laid (by omega))
  exact writeAt_unallocated mapFile some started grows
    (mustAllocate_refuses laid ofDisk grows unaffordable)

end OpenFile

end Nachos
