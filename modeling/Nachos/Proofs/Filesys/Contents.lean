import Nachos.Proofs.Filesys.WriteAt

/-! What a file holds after a write, whether it is an ordinary one or the map of free sectors. -/

namespace Nachos

/-- A bit of a number is the matching bit of the byte that holds it. -/
theorem testBit_leNat (bytes : List Byte) (i : Nat) :
    (leNat bytes).testBit i = (bytes.getD (i / 8) 0).getLsbD (i % 8) := by
  induction bytes generalizing i with
  | nil => simp [leNat]
  | cons byte rest ih =>
    rw [leNat, Nat.add_comm, show 256 = 2 ^ 8 by rfl, Nat.testBit_two_pow_mul_add _ byte.isLt]
    by_cases first : i < 8
    · -- The first byte holds the lowest bits.
      rw [if_pos first, Nat.div_eq_of_lt first, Nat.mod_eq_of_lt first, List.getD_cons_zero]
      rfl
    · obtain ⟨rest', rfl⟩ := Nat.exists_eq_add_of_le (show 8 ≤ i by omega)
      rw [if_neg first, Nat.add_sub_cancel_left, ih, Nat.add_mod_left,
        Nat.add_div_left _ (by decide), List.getD_cons_succ]

/-- A part of a list that is cut out of it keeps its places. -/
theorem getD_drop_take {bytes : List Byte} {skip count i : Nat} (inside : i < count) :
    ((bytes.drop skip).take count).getD i 0 = bytes.getD (skip + i) 0 := by
  rw [List.getD_eq_getElem?_getD, List.getElem?_take, if_pos inside, List.getElem?_drop,
    ← List.getD_eq_getElem?_getD]

namespace PersistentBitmap

/-- A bit of a map that is read from its file is a bit of one of the bytes. -/
theorem bit_overlay {read : List Byte} (whole : read.length = 128) {which : Nat}
    (inside : which < numSectors) :
    (overlay (Bitmap.new numSectors) read).bit which =
      (read.getD (which / 8) 0).getLsbD (which % 8) := by
  -- There are 1024 bits in 128 bytes.
  simp only [numSectors, sectorsPerTrack, numTracks] at inside
  have fresh : (bytes (Bitmap.new numSectors)).length = read.length := by
    rw [length_bytes, length_map rfl, whole]
  have word : (overlay (Bitmap.new numSectors) read).word which =
      wordAt read (4 * (which / 32)) := by
    have held : which / bitsInWord < divRoundUp (Bitmap.new numSectors).numBits bitsInWord :=
      div_lt_divRoundUp inside
    simp only [Bitmap.word, overlay, splice_whole fresh, List.getD_eq_getElem?_getD,
      List.getElem?_map, List.getElem?_range held, Option.map_some, Option.getD_some]
  -- The bit is in the word that four of the bytes spell.
  have place : 4 * (which / 32) + which % 32 / 8 = which / 8 := by omega
  have inByte : which % 32 % 8 = which % 8 := by omega
  rw [Bitmap.bit_eq_getLsbD, word, wordAt, BitVec.getLsbD_ofNat, testBit_leNat,
    getD_drop_take (by simp only [bitsInWord]; omega), place, inByte]
  simp only [decide_eq_true (show which % 32 < 32 by omega), Bool.true_and]

/-- Two maps that are read from their files agree on the bits of a byte only if it is the same. -/
theorem getD_eq_iff_bits {read read' : List Byte} (whole : read.length = 128)
    (whole' : read'.length = 128) {k : Nat} (inside : k < 128) :
    read'.getD k 0 = read.getD k 0 ↔ ∀ which, which / 8 = k →
      (overlay (Bitmap.new numSectors) read').bit which =
        (overlay (Bitmap.new numSectors) read).bit which := by
  have onDisk : ∀ which, which / 8 = k → which < numSectors := by
    intro which place
    simp only [numSectors, sectorsPerTrack, numTracks]
    omega
  refine ⟨fun same which place => ?_, fun same => ?_⟩
  · -- Each of the eight bits is one of the byte.
    rw [bit_overlay whole (onDisk which place), bit_overlay whole' (onDisk which place), place, same]
  -- And back: a byte is its eight bits.
  · apply BitVec.eq_of_getLsbD_eq
    intro i small
    have here := same (8 * k + i) (by omega)
    rw [bit_overlay whole (onDisk _ (by omega)), bit_overlay whole' (onDisk _ (by omega)),
      show (8 * k + i) / 8 = k by omega, show (8 * k + i) % 8 = i by omega] at here
    exact here

end PersistentBitmap

/-- A machine with this disk. -/
def World.ofDisk (disk : Disk) : World := ⟨disk, ⟨fun _ _ => 0, fun _ => 0⟩, 0⟩

namespace FileHeader

variable {disk after : Disk} {hdr hdr' : FileHeader} {source : List Byte} {position : Nat}

@[simp] theorem length_contents (disk : Disk) (hdr : FileHeader) :
    (hdr.contents disk).length = hdr.limit.toNat := length_bytesAt _ _ _ _

/-- A byte of the contents is the byte of the file. -/
theorem getD_contents (disk : Disk) (hdr : FileHeader) {k : Nat} (inside : k < hdr.limit.toNat) :
    (hdr.contents disk).getD k 0 = hdr.byteAt disk k := by
  rw [contents, getD_bytesAt _ _ _ inside, Nat.zero_add]

/-- The contents up to the end of what was written: the bytes there, and other ones before. -/
theorem contents_eq_splice_iff (limit : hdr'.limit = (position + source.length : Nat))
    (started : (position : Int) ≤ hdr.limit)
    (bytes : ∀ k < source.length, hdr'.byteAt after (position + k) = source.getD k 0) :
    hdr'.contents after = splice 0 (hdr.contents disk) position source ↔
      hdr.limit ≤ (position + source.length : Nat) ∧
        ∀ k < position, hdr'.byteAt after k = hdr.byteAt disk k := by
  have wrote : hdr'.limit.toNat = position + source.length := by omega
  have spliced := getD_splice 0 (hdr.contents disk) position source
  refine ⟨fun same => ⟨?_, fun k before => ?_⟩, fun ⟨ends, kept⟩ => ?_⟩
  -- From the contents: their lengths, then the bytes before the position.
  · have lengths := congrArg List.length same
    rw [length_splice, length_contents, length_contents] at lengths
    omega
  · have here := congrArg (fun bytes => bytes.getD k 0) same
    simp only [spliced] at here
    rwa [getD_contents _ _ (by omega), if_neg (by omega), getD_contents _ _ (by omega)] at here
  -- And back, byte by byte: one of the source, or one before it.
  · apply List.ext_getElem
    · rw [length_splice, length_contents, length_contents]
      omega
    · intro k inside other
      rw [length_contents] at inside
      have left := getD_contents after hdr' inside
      have right := spliced k
      rw [List.getD_eq_getElem?_getD, List.getElem?_eq_getElem (by simpa using inside),
        Option.getD_some] at left
      rw [List.getD_eq_getElem?_getD, List.getElem?_eq_getElem other, Option.getD_some] at right
      rw [left, right]
      split
      · rename_i under
        have here := bytes (k - position) (by omega)
        rwa [Nat.add_sub_of_le under.1] at here
      · rw [kept k (by omega), getD_contents _ _ (by omega)]

end FileHeader

namespace OpenFile

variable {disk after : Disk} {file : OpenFile} {source : List Byte} {position : Nat}

/-- A write left the file with the bytes in their place, every other byte, and the larger length. -/
structure Obeyed (disk after : Disk) (hdr hdr' : FileHeader) (source : List Byte) (position : Nat) :
    Prop where
  contents : hdr'.contents after = splice 0 (hdr.contents disk) position source
  length : hdr'.limit = max hdr.limit (position + source.length : Nat)
  -- The header on the disk says the same as the one in memory.
  stored : headerAt after hdr.selfSector = hdr'

/-- Whenever `WriteAt` writes all of its bytes, it leaves the file as it was told to. -/
def WriteAtObeys (disk : Disk) (file : OpenFile) (source : List Byte) (position : Nat) : Prop :=
  ∀ world, world.disk = disk → Program.Meets World.serve (file.writeAt source position) world
    fun given final => given.1 = source.length →
      Obeyed disk final.disk file.hdr given.2.hdr source position

/-- The stored map of free sectors, which has its own sectors marked. -/
structure MapReady (disk : Disk) : Prop where
  mapFile : MapFile disk (mapHeader disk)
  ofDisk : (freeMapOn disk).OfDisk
  marked : Marked disk ((mapHeader disk).dataSector 0)

/-- An open file: the map of free sectors, or any other one. -/
inductive OpenOn (disk : Disk) : FileHeader → Prop
  | freeMap (ready : MapReady disk) : OpenOn disk (mapHeader disk)
  | other {hdr : FileHeader} (ready : Ready disk hdr) : OpenOn disk hdr

/-- The map of free sectors in which more sectors are marked for itself. -/
structure MapEnlarged (disk after : Disk) (hdr' : FileHeader) (past : Nat) (fresh : List Nat)
    (freeMap' : Bitmap) : Prop where
  takes : (freeMapOn disk).Takes fresh freeMap'
  long : fresh.length = (mapHeader disk).neededSlots (wantedFor (mapHeader disk) past)
  grew : FileHeader.Grew disk after (mapHeader disk) hdr' (wantedFor (mapHeader disk) past) fresh
  limit : hdr'.limit = 128
  stored : storedMap after (mapHeader disk) = freeMap'

/-- Enlarging the map's own file marks its new sectors in the map, which is part of the file. -/
theorem enlarge_map (depth : Nat) (ready : MapReady disk) (same : file.hdr = mapHeader disk)
    {past : Nat} (grows : file.hdr.capacity < past) (affordable : Affordable disk file.hdr past) :
    Fs.Yields disk (file.enlarge past fun freeMapFile freeMap => do
        let _ ← writeAtNested (depth + 1) freeMapFile (PersistentBitmap.bytes freeMap) 0)
      fun hdr' after => ∃ fresh freeMap', MapEnlarged disk after hdr' past fresh freeMap' := by
  have laid := ready.mapFile.laid
  -- The map's own header is the one that is written through.
  rw [same] at affordable grows
  unfold enlarge
  rw [same, if_pos grows]
  -- The map is opened and read, and the sectors are taken from it.
  refine (new_reads (by decide)).bind ?_
  refine (ready.mapFile.fetchFrom_reads ⟨mapHeader disk, 0⟩ rfl).bind ?_
  refine Program.Yields.bind
    (mustAllocate_yields laid ready.ofDisk grows affordable.fits affordable.enough) ?_
  rintro ⟨hdr', freeMap'⟩ middle ⟨fresh, takes, long, extended⟩
  dsimp only at takes extended ⊢
  have fields := extended.fields
  -- The map is written back with the new sectors marked.
  have written : Fs.Yields middle (do
        let _ ← writeAtNested (depth + 1) ⟨mapHeader disk, 0⟩ (PersistentBitmap.bytes freeMap') 0)
      fun _ after => storedMap after (mapHeader disk) = freeMap' ∧
        ∀ s, s ≠ freeMapSector → s ≠ (mapHeader disk).dataSector 0 → after s = middle s := by
    refine Program.Yields.bind (MapFile.writeBack_yields depth ⟨mapHeader disk, 0⟩
      ready.mapFile.congr takes.numBits) ?_
    rintro _ after ⟨rfl, -, holds⟩
    exact Program.Yields.pure holds
  -- The header has the new sectors.
  refine Program.Yields.bind written ?_
  rintro _ after ⟨stored, kept⟩
  refine Program.Yields.pure ⟨fresh, freeMap', takes, long, extended.grew.congr fun there => ?_, ?_,
    stored⟩
  · -- The index sector, if there is one now, was free before.
    have single : FileHeader.usedSlots (mapHeader disk).nsectors.toNat = 1 := by
      rw [ready.mapFile.single]
      rfl
    have index := extended.slots numDirect
    rw [FileHeader.slot_index, single, if_neg (by decide)] at index
    rw [index] at there ⊢
    have inside : numDirect - 1 < fresh.length := by
      by_contra past
      rw [List.getD_eq_default _ _ (by omega)] at there
      exact there rfl
    have member : fresh.getD (numDirect - 1) 0 ∈ fresh := by
      rw [List.getD_eq_getElem?_getD, List.getElem?_eq_getElem inside, Option.getD_some]
      exact List.getElem_mem inside
    exact kept _ there (fresh_unmarked takes member ready.marked)
  · -- The limit is that of the file.
    rw [extended.fields]
    exact ready.mapFile.limit

/-- The write ends where the file does, or behind. -/
structure WritesOnly (disk : Disk) (hdr : FileHeader) (position past : Nat) : Prop where
  ends : hdr.limit ≤ past
  -- If the map's own file grows, no bit in front of the write stands for a free sector.
  taken : hdr.selfSector = freeMapSector → hdr.capacity < past → Affordable disk hdr past →
    ∀ s : Nat, s < 8 * position → Marked disk s

/-- A call that never ends leaves nothing that is not as it was told. -/
theorem obeys_of_refuses (refuses : Fs.Refuses disk (file.writeAt source position)) :
    WriteAtObeys disk file source position := by
  intro world seen given final ran
  rw [refuses world seen] at ran
  cases ran

/-- What every call that writes all its bytes leaves is what one such call leaves. -/
theorem obeys_iff_of_yields {post : FileHeader → Disk → Prop}
    (yields : Fs.Yields disk (file.writeAt source position) fun given after => ∃ hdr',
      given = ((source.length : Int), { file with hdr := hdr' }) ∧ post hdr' after)
    {condition : Prop} (exactly : ∀ hdr' after, post hdr' after →
      (Obeyed disk after file.hdr hdr' source position ↔ condition)) :
    WriteAtObeys disk file source position ↔ condition := by
  refine ⟨fun obeys => ?_, fun holds world seen given final ran _ => ?_⟩
  · obtain ⟨_, final, ran, hdr', rfl, left⟩ := yields (World.ofDisk disk) rfl
    exact (exactly hdr' _ left).mp (obeys _ rfl _ _ ran rfl)
  · obtain ⟨hdr', rfl, left⟩ := yields.holds seen ran
    exact (exactly hdr' _ left).mpr holds

/-- A file that ends where the write does is as it was told if the write cut nothing off. -/
theorem obeyed_iff {hdr hdr' : FileHeader} (limit : hdr'.limit = (position + source.length : Nat))
    (started : (position : Int) ≤ hdr.limit) (stored : headerAt after hdr.selfSector = hdr')
    (bytes : ∀ k < source.length, hdr'.byteAt after (position + k) = source.getD k 0) :
    Obeyed disk after hdr hdr' source position ↔ hdr.limit ≤ (position + source.length : Nat) ∧
      ∀ k < position, hdr'.byteAt after k = hdr.byteAt disk k := by
  rw [← FileHeader.contents_eq_splice_iff limit started bytes]
  refine ⟨fun obeyed => obeyed.contents, fun same => ⟨same, ?_, stored⟩⟩
  obtain ⟨ends, -⟩ := (FileHeader.contents_eq_splice_iff limit started bytes).mp same
  rw [limit]
  omega

namespace Wrote

variable {hdr hdr' : FileHeader} {fresh : List Nat}

/-- The bytes that are written are those of the buffer. -/
theorem bytes_written (wrote : Wrote disk after hdr hdr' source position fresh) :
    ∀ k < source.length, hdr'.byteAt after (position + k) = source.getD k 0 := by
  intro k inside
  rw [wrote.bytes _ (by omega), if_pos (by omega), Nat.add_sub_cancel_left]

/-- The bytes in front of them are kept. -/
theorem bytes_kept (wrote : Wrote disk after hdr hdr' source position fresh) :
    ∀ k < position, hdr'.byteAt after k = hdr.byteAt disk k := by
  intro k before
  rw [wrote.bytes _ (by omega), if_neg (by omega)]

/-- The contents of a file after a write that does not end before the file does. -/
theorem contents (wrote : Wrote disk after hdr hdr' source position fresh)
    (started : (position : Int) ≤ hdr.limit) (ends : hdr.limit ≤ (position + source.length : Nat)) :
    hdr'.contents after = splice 0 (hdr.contents disk) position source :=
  (FileHeader.contents_eq_splice_iff wrote.limit started wrote.bytes_written).mpr
    ⟨ends, wrote.bytes_kept⟩

/-- A write at the start leaves nothing but its own bytes, however much was there. -/
theorem contents_start (wrote : Wrote disk after hdr hdr' source 0 fresh) :
    hdr'.contents after = source := by
  have limit : hdr'.limit.toNat = source.length := by
    have := wrote.limit
    omega
  apply List.ext_getElem
  · rw [FileHeader.length_contents, limit]
  · intro k inside other
    have here := FileHeader.getD_contents after hdr' (k := k) (by omega)
    rw [wrote.bytes k (by omega), if_pos (Nat.zero_le k), Nat.sub_zero, List.getD_eq_getElem _ _ inside,
      List.getD_eq_getElem _ _ other] at here
    exact here

end Wrote

/-- What `WriteAt` leaves of any file but the map when it writes all of its bytes. -/
theorem writeAt_other (ready : Ready disk file.hdr) (some : 0 < source.length)
    (started : (position : Int) ≤ file.hdr.limit)
    (affordable : Affordable disk file.hdr (position + source.length)) :
    Fs.Yields disk (file.writeAt source position) fun given after => ∃ hdr',
      given = ((source.length : Int), { file with hdr := hdr' }) ∧
        ∃ fresh, Wrote disk after file.hdr hdr' source position fresh := by
  refine (writeAt_yields ready some started affordable).mono ?_
  rintro _ after ⟨hdr', fresh, rfl, wrote⟩
  exact ⟨hdr', rfl, fresh, wrote⟩

/-- What `WriteAt` leaves of any file but the map is as it was told exactly if nothing is cut off. -/
theorem obeys_other (ready : Ready disk file.hdr) (some : 0 < source.length)
    (started : (position : Int) ≤ file.hdr.limit) :
    WriteAtObeys disk file source position ↔
      WritesOnly disk file.hdr position (position + source.length) := by
  have sizes := ready.laid.sizes
  have only : ∀ {past : Nat}, file.hdr.limit ≤ past → WritesOnly disk file.hdr position past :=
    fun ends => ⟨ends, fun self => absurd self ready.selfApart.1⟩
  -- The sectors for the write are there, or the write is refused.
  by_cases affordable : Affordable disk file.hdr (position + source.length)
  · refine obeys_iff_of_yields (writeAt_other ready some started affordable) ?_
    rintro hdr' after ⟨fresh, wrote⟩
    rw [obeyed_iff wrote.limit started wrote.stored wrote.bytes_written]
    exact ⟨fun both => only both.1, fun holds => ⟨holds.ends, wrote.bytes_kept⟩⟩
  -- A write that is refused leaves nothing to obey.
  · refine iff_of_true (obeys_of_refuses (writeAt_refuses ready.laid ready.mapFile ready.ofDisk
      some started affordable)) (only ?_)
    by_contra short
    exact affordable (affordable_within ready.laid (by omega))

/-- The header that a write has stored is the one that it leaves in memory. -/
theorem Written.headerAt_stored {hdr : FileHeader}
    (written : Written disk after hdr source position) (laid : hdr.Laid disk)
    (within : (position + source.length : Nat) ≤ hdr.capacity) {self : Int}
    (same : hdr.selfSector = self) :
    headerAt after self = { hdr with limit := ((position + source.length : Nat) : Int) } := by
  have still : FileHeader.Laid disk
      { hdr with limit := ((position + source.length : Nat) : Int) } :=
    laid.congr rfl rfl rfl rfl ⟨Int.natCast_nonneg _, within⟩ fun _ => rfl
  unfold headerAt
  rw [← same, written.stored]
  exact FileHeader.ofSector_toSector still.small

/-- What `WriteAt` leaves of a file that has sectors enough for all of its bytes. -/
theorem writeAt_within (laid : file.hdr.Laid disk) (some : 0 < source.length)
    (started : (position : Int) ≤ file.hdr.limit)
    (within : (position + source.length : Nat) ≤ file.hdr.capacity) :
    Fs.Yields disk (file.writeAt source position) fun given after => ∃ hdr',
      given = ((source.length : Int), { file with hdr := hdr' }) ∧
        hdr' = { file.hdr with limit := (position + source.length : Nat) } ∧
        Written disk after file.hdr source position := by
  refine (writeAtNested_within 1 laid source position some started within).mono ?_
  rintro _ after ⟨rfl, written⟩
  exact ⟨_, rfl, rfl, written⟩

/-- What `WriteAt` leaves of the map if its file does not grow. -/
theorem obeys_map_within (ready : MapReady disk) (same : file.hdr = mapHeader disk)
    (some : 0 < source.length) (started : (position : Int) ≤ file.hdr.limit)
    (within : (position + source.length : Nat) ≤ file.hdr.capacity) :
    WriteAtObeys disk file source position ↔
      WritesOnly disk file.hdr position (position + source.length) := by
  have laid : file.hdr.Laid disk := same ▸ ready.mapFile.laid
  -- The write goes through without new sectors.
  refine obeys_iff_of_yields (writeAt_within laid some started within) ?_
  rintro _ after ⟨rfl, written⟩
  have byte : ∀ k, FileHeader.byteAt after
      { file.hdr with limit := ((position + source.length : Nat) : Int) } k =
        file.hdr.byteAt after k := byteAt_limit after file.hdr _
  have stored : headerAt after file.hdr.selfSector =
      { file.hdr with limit := ((position + source.length : Nat) : Int) } :=
    written.headerAt_stored laid within rfl
  -- What was written is there, so only the bytes before it matter.
  rw [obeyed_iff rfl started stored fun k inside => by
    rw [byte, written.bytes _ (by omega), if_pos (by omega), Nat.add_sub_cancel_left]]
  refine ⟨fun both => ⟨both.1, fun _ grows => absurd within (by omega)⟩,
    fun holds => ⟨holds.ends, fun k before => ?_⟩⟩
  rw [byte, written.bytes _ (by omega), if_neg (by omega)]

/-- How many sectors more a file needs that is too small. -/
theorem wantedFor_pos {hdr : FileHeader} {past : Nat} (grows : hdr.capacity < past) :
    0 < wantedFor hdr past := by
  unfold wantedFor divRoundUp
  simp only [sectorSize]
  split <;> omega

namespace MapEnlarged

variable {hdr' : FileHeader} {past : Nat} {fresh : List Nat} {freeMap' : Bitmap}

/-- The map's own file is laid out when it has grown. -/
theorem laid (enlarged : MapEnlarged disk after hdr' past fresh freeMap') (ready : MapReady disk)
    (fits : past ≤ maxFileSize) : hdr'.Laid after := by
  have old := ready.mapFile.laid
  have free : ∀ s ∈ fresh, 0 < s ∧ s < numSectors := fun s member =>
    ready.ofDisk.free (enlarged.takes.clear s member).1 (enlarged.takes.clear s member).2
  -- The new sectors were free, and none of them is the map's.
  refine enlarged.grew.laid old (reaches old fits).1 enlarged.long enlarged.takes.nodup free
    (fun s member => ⟨?_, fun j same => ?_⟩) ?_
  · have positive := (free s member).1
    rw [ready.mapFile.self]
    show (s : Int) ≠ 0
    omega
  · -- The only slot of the map is that of its sector, which is marked.
    have positive := (free s member).1
    have used := (old.used j).mp (by omega)
    rw [ready.mapFile.single] at used
    obtain rfl : j = 0 := Nat.lt_one_iff.mp used
    exact fresh_unmarked enlarged.takes member ready.marked same.symm
  · -- The limit is within what the file can hold.
    have capacity := enlarged.grew.capacity
    rw [enlarged.grew.nsectors, ready.mapFile.single] at capacity
    rw [enlarged.limit, capacity]
    simp only [sectorSize]
    omega

/-- A byte of the map is kept if none of its bits stands for a new sector. -/
theorem byte_iff (enlarged : MapEnlarged disk after hdr' past fresh freeMap') (ready : MapReady disk)
    {k : Nat} (inside : k < 128) : hdr'.byteAt after k = (mapHeader disk).byteAt disk k ↔
      ∀ s ∈ fresh, s / 8 ≠ k := by
  -- The byte is in the one sector that the map has.
  have block : hdr'.block after 0 = (mapHeader disk).dataSector 0 := by
    have first := enlarged.grew.slots 0
    rwa [ready.mapFile.single, if_pos (by decide)] at first
  have same : hdr'.byteAt after k = (mapHeader disk).byteAt after k := by
    unfold FileHeader.byteAt
    rw [Nat.div_eq_of_lt inside, block, FileHeader.block_zero]
  have bytes : ∀ disk', ((mapHeader disk).bytesAt disk' 0 128).getD k 0 =
      (mapHeader disk).byteAt disk' k := fun disk' => by
    rw [FileHeader.getD_bytesAt _ _ _ inside, Nat.zero_add]
  -- A byte of the map is as it was when its eight bits are.
  have bits := PersistentBitmap.getD_eq_iff_bits (FileHeader.length_bytesAt disk (mapHeader disk) 0 128)
    (FileHeader.length_bytesAt after (mapHeader disk) 0 128) inside
  rw [bytes, bytes] at bits
  rw [same, bits]
  have stored : PersistentBitmap.overlay (Bitmap.new numSectors)
      ((mapHeader disk).bytesAt after 0 128) = freeMap' := enlarged.stored
  have before : PersistentBitmap.overlay (Bitmap.new numSectors)
      ((mapHeader disk).bytesAt disk 0 128) = freeMapOn disk := rfl
  rw [stored, before]
  -- The bits that have changed are those of the fresh sectors, which were clear.
  refine ⟨fun agree s member place => ?_, fun none which place => ?_⟩
  · have here := agree s place
    rw [enlarged.takes.bit, (enlarged.takes.clear s member).2, Bool.or_false] at here
    exact absurd member (of_decide_eq_false here)
  · rw [enlarged.takes.bit, decide_eq_false fun member => none which member place, Bool.false_or]

end MapEnlarged

/-- `WriteAt` to the map's own file, when it has to grow, writes it with its new sectors marked. -/
theorem writeAt_mapGrows (ready : MapReady disk) (same : file.hdr = mapHeader disk)
    (some : 0 < source.length) (started : (position : Int) ≤ file.hdr.limit)
    (grows : file.hdr.capacity < (position + source.length : Nat))
    (affordable : Affordable disk file.hdr (position + source.length)) :
    Fs.Yields disk (file.writeAt source position) fun given after => ∃ hdr'',
      given = ((source.length : Int), { file with hdr := hdr'' }) ∧
        ∃ middle hdr' fresh freeMap',
          MapEnlarged disk middle hdr' (position + source.length) fresh freeMap' ∧
          hdr'' = { hdr' with limit := (position + source.length : Nat) } ∧
          hdr'.Laid middle ∧ (position + source.length : Nat) ≤ hdr'.capacity ∧
          Written middle after hdr' source position := by
  have laid : file.hdr.Laid disk := same ▸ ready.mapFile.laid
  have sizes := laid.sizes
  have small := affordable.fits
  simp only [maxFileSize, numDirect, numInDirect, sectorSize] at small
  unfold writeAt writeAtNested
  rw [if_neg (by omega)]
  -- The sum of the position and the length is an int.
  refine (intSum_reads disk (by omega) (by omega)).bind ?_
  rw [← Int.natCast_add]
  -- First the map is enlarged, through the file that is just being written.
  refine (enlarge_map 0 ready same grows affordable).bind ?_
  rintro hdr' middle ⟨fresh, freeMap', enlarged⟩
  have laid' := enlarged.laid ready affordable.fits
  have room : ((position + source.length : Nat) : Int) ≤ hdr'.capacity := by
    have reach := (reaches ready.mapFile.laid affordable.fits).2
    have count := ready.mapFile.laid.counted
    rw [enlarged.grew.capacity, enlarged.grew.nsectors]
    simp only [sectorSize] at *
    omega
  -- Then the bytes are stored in the enlarged file.
  have stores := store_yields { file with
    hdr := hdr'.setFileLimit (position + source.length) } laid' some room rfl
  dsimp only at stores ⊢
  rw [Int.toNat_natCast, Int.natCast_add]
  refine stores.bind ?_
  rintro _ after ⟨limited, written⟩
  rw [limited]
  exact Program.Yields.pure ⟨_, rfl, middle, hdr', fresh, freeMap', enlarged, rfl, laid', room,
    written⟩

/-- What `WriteAt` leaves of the map if its file grows: the map gets new bits in the meantime. -/
theorem obeys_map_grows (ready : MapReady disk) (same : file.hdr = mapHeader disk)
    (some : 0 < source.length) (started : (position : Int) ≤ file.hdr.limit)
    (grows : file.hdr.capacity < (position + source.length : Nat)) :
    WriteAtObeys disk file source position ↔
      WritesOnly disk file.hdr position (position + source.length) := by
  have laid : file.hdr.Laid disk := same ▸ ready.mapFile.laid
  have sizes := laid.sizes
  have limit : file.hdr.limit = 128 := same ▸ ready.mapFile.limit
  have ends : file.hdr.limit ≤ (position + source.length : Nat) := by
    have := laid.limit
    omega
  -- Without sectors for it, the write is refused, and there is nothing to obey.
  by_cases affordable : Affordable disk file.hdr (position + source.length)
  swap
  · exact iff_of_true (obeys_of_refuses (writeAt_refuses laid ready.mapFile ready.ofDisk
      some started affordable)) ⟨ends, fun _ _ able => absurd able affordable⟩
  -- The write goes through, with new sectors.
  refine obeys_iff_of_yields (writeAt_mapGrows ready same some started grows affordable) ?_
  rintro _ after ⟨middle, hdr', fresh, freeMap', enlarged, rfl, laid', room, written⟩
  have byte : ∀ k, FileHeader.byteAt after
      { hdr' with limit := ((position + source.length : Nat) : Int) } k = hdr'.byteAt after k :=
    byteAt_limit after hdr' _
  have self : hdr'.selfSector = file.hdr.selfSector := same ▸ enlarged.grew.selfSector
  have stored : headerAt after file.hdr.selfSector =
      { hdr' with limit := ((position + source.length : Nat) : Int) } :=
    written.headerAt_stored laid' room self
  -- What was written is there, so only the bytes before it matter.
  rw [obeyed_iff rfl started stored fun k inside => by
    rw [byte, written.bytes _ (by omega), if_pos (by omega), Nat.add_sub_cancel_left]]
  -- A byte in front of the write is what the map's own growth has left there.
  have front : ∀ k < position, FileHeader.byteAt after
      { hdr' with limit := ((position + source.length : Nat) : Int) } k = file.hdr.byteAt disk k ↔
        ∀ s ∈ fresh, s / 8 ≠ k := fun k before => by
    rw [byte, written.bytes k (by omega), if_neg (by omega), same,
      enlarged.byte_iff ready (by omega)]
  -- There is at least one new sector.
  have some' : fresh ≠ [] := by
    intro none
    have long := enlarged.long
    have positive := wantedFor_pos (same ▸ grows)
    have one : (mapHeader disk).nsectors.toNat = 1 := by
      rw [ready.mapFile.single]
      rfl
    rw [none, List.length_nil] at long
    unfold FileHeader.neededSlots FileHeader.usedSlots at long
    rw [one] at long
    split at long <;> split at long <;> omega
  refine ⟨fun both => ⟨both.1, fun _ _ _ s before => ?_⟩, fun holds => ⟨ends, fun k before => ?_⟩⟩
  · -- If the front is kept, no new sector has its bit in it, so all bits there were set.
    refine enlarged.takes.set_before some' (fun t member => ?_) before
    by_contra below
    exact (front (t / 8) (by omega)).mp (both.2 (t / 8) (by omega)) t member rfl
  · -- If all bits there were set, no new sector has its bit in it.
    refine (front k before).mpr fun s member place => ?_
    have marked := holds.taken (same ▸ ready.mapFile.self) grows affordable s (by omega)
    exact fresh_unmarked enlarged.takes member marked rfl

end OpenFile

section Sample

/-- A header of a file with these direct sectors. -/
def FileHeader.ofSectors (selfSector : Int) (sectors : List Nat) (limit : Int) : FileHeader where
  limit
  capacity := sectors.length * sectorSize
  nsectors := sectors.length
  selfSector
  type := .file
  createTime := 0
  modifyTime := 0
  dataSectors := .ofFn fun i => (sectors.getD i 0 : Nat)

/-- The slots of such a header are its sectors. -/
theorem FileHeader.slot_ofSectors (disk : Disk) {sectors : List Nat}
    (few : sectors.length ≤ numDirect) (selfSector limit : Int) (j : Nat) :
    (ofSectors selfSector sectors limit).slot disk j = (sectors.getD j 0 : Nat) := by
  -- What the header holds is the list, and 0 behind it.
  have held : ∀ i, (ofSectors selfSector sectors limit).dataSector i =
      if i ≤ numDirect then ((sectors.getD i 0 : Nat) : Int) else 0 := by
    intro i
    unfold dataSector ofSectors
    rw [List.getD_eq_getElem?_getD]
    split
    · rw [List.getElem?_eq_getElem (by simp only [Vector.length_toList]; omega)]
      simp
    · rw [List.getElem?_eq_none (by simp only [Vector.length_toList]; omega)]
      rfl
  -- There are only direct sectors, and the index sector is 0.
  have outside : ∀ i, numDirect ≤ i → sectors.getD i 0 = 0 := fun i behind =>
    List.getD_eq_default _ _ (by omega)
  unfold FileHeader.slot
  rw [held, held, if_pos (le_refl _), outside _ (le_refl _)]
  split
  · rfl
  · rw [outside j (by omega), if_neg (by simp)]
    rfl

/-- A header with a few direct sectors is laid out on every disk. -/
theorem FileHeader.ofSectors_laid (disk : Disk) {selfSector : Int} {sectors : List Nat}
    {limit : Int} (few : sectors.length ≤ numDirect) (self : OnDisk selfSector)
    (sized : 0 ≤ limit ∧ limit ≤ sectors.length * sectorSize) (nodup : sectors.Nodup)
    (onDisk : ∀ s ∈ sectors, 0 < s ∧ s < numSectors ∧ (s : Int) ≠ selfSector) :
    (ofSectors selfSector sectors limit).Laid disk := by
  have slot := slot_ofSectors disk few selfSector limit
  -- No sector is 0, so that a slot is used as far as the list goes.
  have inside : ∀ j, sectors.getD j 0 ≠ 0 ↔ j < sectors.length := by
    intro j
    by_cases below : j < sectors.length
    · have member := onDisk _ (List.getElem_mem below)
      rw [List.getD_eq_getElem?_getD, List.getElem?_eq_getElem below, Option.getD_some]
      omega
    · rw [List.getD_eq_default _ _ (by omega)]
      omega
  have used : usedSlots sectors.length = sectors.length := if_pos few
  -- The clauses of a header that is laid out.
  refine ⟨⟨Int.natCast_nonneg _, ?_⟩, rfl, sized, self, fun j => ?_, fun j there => ?_,
    fun i j there same => ?_⟩
  · -- The count fits.
    simp only [ofSectors]
    omega
  · -- A slot is used as far as the list goes.
    rw [slot]
    simp only [ofSectors, Int.toNat_natCast, used, ← inside j]
    omega
  · -- Each sector is on the disk, and not the header's own.
    rw [slot] at there ⊢
    have below := (inside j).mp (by omega)
    rw [List.getD_eq_getElem?_getD, List.getElem?_eq_getElem below, Option.getD_some]
    obtain ⟨positive, small, other⟩ := onDisk _ (List.getElem_mem below)
    exact ⟨⟨by omega, by exact_mod_cast small⟩, other⟩
  · -- No sector is there twice.
    rw [slot] at there
    rw [slot, slot] at same
    have first := (inside i).mp (by omega)
    have second := (inside j).mp (by omega)
    rw [List.getD_eq_getElem?_getD, List.getElem?_eq_getElem first, Option.getD_some,
      List.getD_eq_getElem?_getD, List.getElem?_eq_getElem second, Option.getD_some] at same
    exact (List.Nodup.getElem_inj_iff nodup).mp (by exact_mod_cast same)

/-- The map in which these sectors are marked. -/
def Bitmap.ofMarked (marked : List Nat) : Bitmap := marked.foldl setBit (Bitmap.new numSectors)

/-- A disk with the map in sector 3 and one ordinary file at sector 4. -/
def sampleDisk (sectors : List Nat) (limit : Int) : Disk := fun s =>
  if s = 0 then (FileHeader.ofSectors 0 [3] 128).toSector
  else if s = 3 then .ofBytes (PersistentBitmap.bytes (.ofMarked ([0, 3, 4] ++ sectors)))
  else if s = 4 then (FileHeader.ofSectors 4 sectors limit).toSector
  else .replicate _ 0

/-- A map keeps its size when sectors are marked in it. -/
theorem Bitmap.numBits_foldl_setBit (marked : List Nat) (map : Bitmap) :
    (marked.foldl setBit map).numBits = map.numBits := by
  induction marked generalizing map with
  | nil => rfl
  | cons sector rest ih => exact ih _

/-- The bits of a map in which sectors have been marked. -/
theorem Bitmap.bit_foldl_setBit (marked : List Nat) (map : Bitmap)
    (inRange : ∀ s ∈ marked, s < map.numBits) (j : Nat) :
    (marked.foldl setBit map).bit j = (decide (j ∈ marked) || map.bit j) := by
  induction marked generalizing map with
  | nil => simp
  | cons sector rest ih =>
    rw [List.foldl_cons,
      ih (map.setBit sector) fun s member => inRange s (List.mem_cons_of_mem _ member),
      bit_setBit _ (inRange sector List.mem_cons_self)]
    simp only [List.mem_cons, Bool.decide_or, beq_eq_decide]
    rw [← Bool.or_assoc, Bool.or_comm (decide _) (decide (j = _))]

/-- Each sector that is marked leaves one clear bit fewer. -/
theorem Bitmap.numClear_foldl_setBit (marked : List Nat) (map : Bitmap)
    (inRange : ∀ s ∈ marked, s < map.numBits) (nodup : marked.Nodup)
    (clear : ∀ s ∈ marked, map.bit s = false) :
    (marked.foldl setBit map).numClear + marked.length = map.numClear := by
  -- By induction on the sectors that are marked.
  induction marked generalizing map with
  | nil => rfl
  | cons sector rest ih =>
    obtain ⟨other, nodup⟩ := List.nodup_cons.mp nodup
    have here := inRange sector List.mem_cons_self
    have one := numClear_setBit map here (clear sector List.mem_cons_self)
    -- The sectors that come later are not the one that is marked first.
    have later := ih (map.setBit sector) (fun s member => inRange s (List.mem_cons_of_mem _ member))
      nodup fun s member => by
        have different : s ≠ sector := fun same => other (same ▸ member)
        rw [bit_setBit _ here, clear s (List.mem_cons_of_mem _ member), Bool.or_false]
        simpa using different
    rw [List.foldl_cons, List.length_cons]
    omega

/-- A map in which sectors have been marked is one of all sectors. -/
theorem Bitmap.ofMarked_ofDisk {marked : List Nat} (inRange : ∀ s ∈ marked, s < numSectors)
    (zero : 0 ∈ marked) : (Bitmap.ofMarked marked).OfDisk where
  numBits := numBits_foldl_setBit marked _
  taken := by
    rw [ofMarked, bit_foldl_setBit marked _ inRange, decide_eq_true zero, Bool.true_or]

/-- All sectors but those that are marked are clear. -/
theorem Bitmap.numClear_ofMarked {marked : List Nat} (inRange : ∀ s ∈ marked, s < numSectors)
    (nodup : marked.Nodup) : (Bitmap.ofMarked marked).numClear + marked.length = numSectors :=
  (numClear_foldl_setBit marked _ inRange nodup fun s _ => bit_new _ s).trans (numClear_new _)

/-- A map is read from the sector that it fills. -/
theorem MapFile.storedMap_of_bytes {disk : Disk} {hdr : FileHeader} {map : PersistentBitmap}
    (all : map.numBits = numSectors)
    (held : disk (hdr.dataSector 0) = .ofBytes (PersistentBitmap.bytes map)) :
    storedMap disk hdr = map := by
  have long : (PersistentBitmap.bytes map).length = sectorSize := by
    rw [PersistentBitmap.length_bytes, PersistentBitmap.length_map all]
  have bytes : hdr.bytesAt disk 0 128 = PersistentBitmap.bytes map := by
    have first := FileHeader.bytesAt_sector disk hdr 0
    rwa [Nat.zero_mul, FileHeader.block_zero, held, Sector.toList_ofBytes long] at first
  unfold storedMap
  rw [bytes]
  exact PersistentBitmap.overlay_bytes all

/-- The header of the map on the sample disk. -/
theorem mapHeader_sampleDisk (sectors : List Nat) (limit : Int) :
    mapHeader (sampleDisk sectors limit) = .ofSectors 0 [3] 128 :=
  have laid : (FileHeader.ofSectors 0 [3] 128).Laid (sampleDisk sectors limit) :=
    FileHeader.ofSectors_laid _ (by decide) (by decide) (by decide) (by decide) (by decide)
  FileHeader.ofSector_toSector laid.small

/-- The map that is stored on the sample disk. -/
theorem freeMapOn_sampleDisk (sectors : List Nat) (limit : Int) :
    freeMapOn (sampleDisk sectors limit) = .ofMarked ([0, 3, 4] ++ sectors) :=
  MapFile.storedMap_of_bytes (Bitmap.numBits_foldl_setBit _ _)
    (by rw [mapHeader_sampleDisk]; rfl)

/-- The map on a sample disk has all sectors left but those of the file and three others. -/
theorem numClear_sampleDisk {sectors : List Nat} (limit : Int)
    (inRange : ∀ s ∈ [0, 3, 4] ++ sectors, s < numSectors) (nodup : ([0, 3, 4] ++ sectors).Nodup) :
    (freeMapOn (sampleDisk sectors limit)).numClear + sectors.length = 1021 := by
  have clear := Bitmap.numClear_ofMarked inRange nodup
  rw [freeMapOn_sampleDisk]
  simp only [List.length_append, List.length_cons, List.length_nil, numSectors, sectorsPerTrack,
    numTracks] at *
  omega

/-- The file on the sample disk is ready to be written. -/
theorem sampleDisk_ready {sectors : List Nat} {limit : Int} (few : sectors.length ≤ numDirect)
    (sized : 0 ≤ limit ∧ limit ≤ sectors.length * sectorSize) (nodup : sectors.Nodup)
    (onDisk : ∀ s ∈ sectors, 4 < s ∧ s < numSectors) :
    Ready (sampleDisk sectors limit) (.ofSectors 4 sectors limit) := by
  -- Both headers on it are laid out.
  have laid : (FileHeader.ofSectors 4 sectors limit).Laid (sampleDisk sectors limit) :=
    FileHeader.ofSectors_laid _ few (by decide) sized nodup fun s member => by
      have := onDisk s member
      omega
  have mapLaid : (FileHeader.ofSectors 0 [3] 128).Laid (sampleDisk sectors limit) :=
    FileHeader.ofSectors_laid _ (by decide) (by decide) (by decide) (by decide) (by decide)
  have mapHdr := mapHeader_sampleDisk sectors limit
  have mapSector : (mapHeader (sampleDisk sectors limit)).dataSector 0 = 3 := by
    rw [mapHdr]
    rfl
  -- All sectors that are in use are on the disk.
  have inRange : ∀ s ∈ [0, 3, 4] ++ sectors, s < numSectors := by
    intro s member
    rcases List.mem_append.mp member with system | own
    · simp only [List.mem_cons, List.not_mem_nil, or_false] at system
      rcases system with rfl | rfl | rfl <;> decide
    · exact (onDisk s own).2
  -- The map has marked the map's own sectors, the header and the file's sectors, and no others.
  have ofDisk : (freeMapOn (sampleDisk sectors limit)).OfDisk := by
    rw [freeMapOn_sampleDisk]
    exact Bitmap.ofMarked_ofDisk inRange (by simp)
  have bits : ∀ j, (freeMapOn (sampleDisk sectors limit)).bit j =
      decide (j ∈ [0, 3, 4] ++ sectors) := by
    intro j
    rw [freeMapOn_sampleDisk, Bitmap.ofMarked, Bitmap.bit_foldl_setBit _ _ inRange, Bitmap.bit_new,
      Bool.or_false]
  -- The slots of the file are its sectors.
  have slot := FileHeader.slot_ofSectors (sampleDisk sectors limit) few 4 limit
  have member : ∀ j, sectors.getD j 0 ≠ 0 → sectors.getD j 0 ∈ sectors := by
    intro j there
    by_cases inside : j < sectors.length
    · rw [List.getD_eq_getElem?_getD, List.getElem?_eq_getElem inside, Option.getD_some]
      exact List.getElem_mem inside
    · rw [List.getD_eq_default _ _ (by omega)] at there
      exact absurd rfl there
  -- What is marked, and what is apart from the map.
  refine ⟨laid, mapHdr ▸ ⟨mapLaid, rfl, rfl, rfl⟩, ofDisk, ?_, ?_, fun j there => ?_, ⟨?_, ?_⟩,
    fun j same => ?_⟩
  · unfold Marked
    rw [mapSector, bits]
    simp
  · unfold Marked
    rw [bits]
    simp [FileHeader.ofSectors]
  · rw [slot] at there ⊢
    unfold Marked
    rw [bits, Int.toNat_natCast, decide_eq_true]
    exact List.mem_append_right _ (member j (by omega))
  · show (4 : Int) ≠ 0
    decide
  · rw [mapSector]
    show (4 : Int) ≠ 3
    decide
  · rw [slot, mapSector] at same
    have := onDisk _ (member j (by omega))
    omega

end Sample

/-- `WriteAt` leaves a file as it was told exactly if it cuts nothing off. -/
theorem writeAt_obeys_iff {disk : Disk} {file : OpenFile} {source : List Byte} {position : Nat}
    (opened : OpenFile.OpenOn disk file.hdr) (some : 0 < source.length)
    (started : (position : Int) ≤ file.hdr.limit) :
    OpenFile.WriteAtObeys disk file source position ↔
      OpenFile.WritesOnly disk file.hdr position (position + source.length) := by
  generalize same : file.hdr = hdr at opened
  cases opened with
  | freeMap ready =>
    rw [← same]
    by_cases grows : file.hdr.capacity < (position + source.length : Nat)
    · exact OpenFile.obeys_map_grows ready same some started grows
    · exact OpenFile.obeys_map_within ready same some started (by omega)
  | other ready =>
    subst same
    exact OpenFile.obeys_other ready some started

/-- The last of the two bytes of a file is replaced, and the other one kept. -/
theorem writeAt_obeys_lastByte :
    OpenFile.WriteAtObeys (sampleDisk [5] 2) ⟨.ofSectors 4 [5] 2, 0⟩ [7] 1 :=
  (writeAt_obeys_iff
    (.other (sampleDisk_ready (by decide) (by decide) (by decide) (by decide)))
    (by decide) (by decide)).mpr
    ⟨by decide, fun self => absurd self (by decide)⟩

/-- The first of the two bytes of a file is replaced, and the other one is cut off. -/
theorem writeAt_cutsOff :
    OpenFile.OpenOn (sampleDisk [5] 2) (.ofSectors 4 [5] 2) ∧
      ¬ OpenFile.WriteAtObeys (sampleDisk [5] 2) ⟨.ofSectors 4 [5] 2, 0⟩ [7] 0 := by
  have ready : Ready (sampleDisk [5] 2) (.ofSectors 4 [5] 2) :=
    sampleDisk_ready (by decide) (by decide) (by decide) (by decide)
  refine ⟨.other ready, fun obeys => ?_⟩
  have only : OpenFile.WritesOnly (sampleDisk [5] 2) (.ofSectors 4 [5] 2) 0 (0 + 1) :=
    (OpenFile.obeys_other ready (by decide) (by decide)).mp obeys
  exact absurd only.ends (by decide)

end Nachos
