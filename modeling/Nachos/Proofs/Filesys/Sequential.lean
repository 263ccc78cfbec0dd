import Mathlib.Algebra.GroupWithZero.Nat
import Nachos.Proofs.Filesys.Contents

/-! Writing a new file from its start to its end, and reading it back in pieces. -/

namespace Nachos

/-- More bytes take no fewer sectors. -/
theorem divRoundUp_mono {m n : Nat} (le : m ≤ n) :
    divRoundUp m sectorSize ≤ divRoundUp n sectorSize := by
  unfold divRoundUp
  simp only [sectorSize]
  split <;> split <;> omega

/-- A larger file uses no fewer slots. -/
theorem FileHeader.usedSlots_mono {m n : Nat} (le : m ≤ n) : usedSlots m ≤ usedSlots n := by
  unfold usedSlots
  split <;> split <;> omega

/-- Cut bytes into consecutive pieces of these sizes, as far as they reach. -/
def cut (bytes : List Byte) : List Nat → List (List Byte)
  | [] => []
  | size :: rest => bytes.take size :: cut (bytes.drop size) rest

namespace OpenFile

/-- Call `Write` with each of the chunks. -/
def writeAll (file : OpenFile) : List (List Byte) → Fs (List Int × OpenFile)
  | [] => return ([], file)
  | chunk :: rest => do
    let (result, file) ← file.write chunk
    let (results, file) ← file.writeAll rest
    return (result :: results, file)

/-- Call `Read` with each of the sizes. -/
def readAll (file : OpenFile) : List Nat → Fs (List (List Byte) × OpenFile)
  | [] => return ([], file)
  | size :: rest => do
    let (piece, file) ← file.read size
    let (pieces, file) ← file.readAll rest
    return (piece :: pieces, file)

variable {disk after : Disk} {file : OpenFile}

/-- A file that has been written from its start, and has no sectors that it does not need. -/
structure Holds (disk : Disk) (file : OpenFile) (written : List Byte) : Prop where
  ready : Ready disk file.hdr
  limit : file.hdr.limit = written.length
  contents : file.hdr.contents disk = written
  snug : file.hdr.nsectors = divRoundUp written.length sectorSize
  position : file.seekPosition = written.length

/-- A file that has been written up to a place gets sectors up to the next one. -/
theorem Holds.grown {written : List Byte} (holds : Holds disk file written) {past : Nat}
    (behind : written.length ≤ past) :
    file.hdr.nsectors.toNat + wantedFor file.hdr past = divRoundUp past sectorSize := by
  have capacity := holds.ready.laid.sizes.1
  have snug := holds.snug
  unfold wantedFor
  rw [capacity]
  unfold divRoundUp at *
  simp only [sectorSize] at *
  split at snug <;> split <;> split <;> omega

/-- Sectors enough are free for a file of this size to become one of that size. -/
def Roomy (disk : Disk) (size total : Nat) : Prop :=
  FileHeader.usedSlots (divRoundUp total sectorSize) ≤
    (freeMapOn disk).numClear + FileHeader.usedSlots (divRoundUp size sectorSize)

/-- One more chunk goes behind what has been written. -/
theorem write_holds {written chunk : List Byte} {total : Nat} (holds : Holds disk file written)
    (fits : total ≤ maxFileSize) (roomy : Roomy disk written.length total)
    (within : written.length + chunk.length ≤ total) :
    Fs.Yields disk (file.write chunk) fun given after => given.1 = chunk.length ∧
      Holds after given.2 (written ++ chunk) ∧
      Roomy after (written ++ chunk).length total := by
  have position : file.seekPosition = written.length := holds.position
  have limit := holds.limit
  by_cases empty : chunk = []
  · -- Nothing is written, and the position stays.
    subst empty
    unfold write writeAt writeAtNested
    rw [if_pos (.inl rfl)]
    refine Program.Yields.pure ⟨rfl, ?_, ?_⟩
    · rw [List.append_nil]
      exact ⟨holds.ready, limit, holds.contents, holds.snug, by simp [position]⟩
    · rw [List.append_nil]
      exact roomy
  -- Something is written, for which there are sectors enough.
  have some : 0 < chunk.length := List.length_pos_iff.mpr empty
  have grown := holds.grown (Nat.le_add_right written.length chunk.length)
  have affordable : Affordable disk file.hdr (written.length + chunk.length) := by
    refine ⟨by omega, ?_⟩
    unfold FileHeader.neededSlots
    rw [grown, holds.snug, Int.toNat_natCast]
    have upTo := FileHeader.usedSlots_mono (divRoundUp_mono within)
    unfold Roomy at roomy
    omega
  -- The chunk goes to the place where the last one ended.
  unfold write
  rw [position]
  refine (writeAt_yields holds.ready some (by omega) affordable).bind ?_
  rintro _ after ⟨hdr', fresh, rfl, wrote⟩
  have contents := wrote.contents (by omega) (by omega)
  refine Program.Yields.pure ⟨rfl, ⟨wrote.ready holds.ready, ?_, ?_, ?_, ?_⟩, ?_⟩
  · -- The limit is behind the chunk.
    rw [wrote.limit, List.length_append]
  · -- The contents go on by the chunk.
    rw [contents, holds.contents]
    simp [splice]
  · -- The sectors are those of the bytes.
    rw [wrote.grew.nsectors, List.length_append, ← grown]
    have := holds.ready.laid.counted
    omega
  · -- The position is behind the chunk.
    simp only [List.length_append]
    omega
  · -- The sectors left are enough for what is still to come.
    have clear := wrote.takes.numClear
    have long := wrote.long
    unfold FileHeader.neededSlots at long
    rw [grown, holds.snug, Int.toNat_natCast] at long
    have upTo := FileHeader.usedSlots_mono (divRoundUp_mono (Nat.le_add_right written.length chunk.length))
    unfold Roomy at *
    rw [List.length_append]
    omega

/-- All the chunks go behind each other. -/
theorem writeAll_holds {total : Nat} (fits : total ≤ maxFileSize) (chunks : List (List Byte)) :
    ∀ {disk file written}, Holds disk file written → Roomy disk written.length total →
      written.length + chunks.flatten.length ≤ total →
      Fs.Yields disk (file.writeAll chunks) fun given after =>
        given.1 = chunks.map (fun chunk => (chunk.length : Int)) ∧
          Holds after given.2 (written ++ chunks.flatten) := by
  -- What has been written grows by one chunk after the other.
  induction chunks with
  -- No chunk is left.
  | nil =>
    intro disk file written holds _ _
    refine Program.Yields.pure ⟨rfl, ?_⟩
    rw [List.flatten_nil, List.append_nil]
    exact holds
  -- One chunk is written, and then the rest.
  | cons chunk rest ih =>
    intro disk file written holds roomy within
    rw [List.flatten_cons, List.length_append] at within
    unfold writeAll
    refine (write_holds holds fits roomy (by omega)).bind ?_
    rintro ⟨result, file'⟩ middle ⟨all, holds', roomy'⟩
    refine (ih holds' roomy' (by rw [List.length_append]; omega)).bind ?_
    rintro ⟨results, file''⟩ after ⟨others, holds''⟩
    dsimp only at all others holds''
    refine Program.Yields.pure ⟨by rw [all, others]; rfl, ?_⟩
    -- The chunks together are those of the list.
    rwa [List.flatten_cons, ← List.append_assoc]

/-- The bytes of a file from a place on are a part of its contents. -/
theorem bytesAt_contents (disk : Disk) (hdr : FileHeader) (m q : Nat) :
    hdr.bytesAt disk q (min m (hdr.limit.toNat - q)) = ((hdr.contents disk).drop q).take m := by
  by_cases inside : q ≤ hdr.limit.toNat
  · have part := FileHeader.bytesAt_drop_take disk hdr 0
      (show q + min m (hdr.limit.toNat - q) ≤ hdr.limit.toNat by omega)
    rw [Nat.zero_add] at part
    rw [← part, ← FileHeader.contents, List.take_eq_take_iff, List.length_drop,
      FileHeader.length_contents]
    omega
  · -- Past the end there are no bytes.
    rw [List.drop_of_length_le (by rw [FileHeader.length_contents]; omega), List.take_nil,
      show min m (hdr.limit.toNat - q) = 0 by omega]
    rfl

/-- `ReadAt` gives a part of the contents, as far as they reach. -/
theorem readAt_contents (laid : file.hdr.Laid disk) {m q : Nat} (some : 0 < m)
    (small : q + m < 2 ^ 31) :
    Fs.Reads disk (file.readAt m q) (((file.hdr.contents disk).drop q).take m) := by
  have reads := OpenFile.readAt_reads laid q (Int.natCast_pos.mpr some) (by exact_mod_cast small)
  rwa [Int.toNat_natCast, bytesAt_contents] at reads

/-- Reading goes on where it ended, and gives nothing past the end. -/
theorem readAll_contents (sizes : List Nat) :
    ∀ {file : OpenFile} {q : Nat}, file.hdr.Laid disk →
      file.seekPosition = (min q file.hdr.limit.toNat : Nat) →
      (∀ front size back, sizes = front ++ size :: back →
        0 < size ∧ min (q + front.sum) file.hdr.limit.toNat + size < 2 ^ 31) →
      Fs.Yields disk (file.readAll sizes) fun given after =>
        after = disk ∧ given.1 = cut ((file.hdr.contents disk).drop q) sizes := by
  -- By induction on the sizes that are left.
  induction sizes with
  | nil => exact fun _ _ _ => Program.Yields.pure ⟨rfl, rfl⟩
  -- The first size, from the position that has been reached.
  | cons size rest ih =>
    intro file q laid position inRange
    obtain ⟨some, small⟩ := inRange [] size rest rfl
    rw [List.sum_nil, Nat.add_zero] at small
    -- A position past the end reads as much as the end does.
    have piece : ((file.hdr.contents disk).drop (min q file.hdr.limit.toNat)).take size =
        ((file.hdr.contents disk).drop q).take size := by
      rw [← FileHeader.length_contents disk file.hdr]
      by_cases inside : q ≤ (file.hdr.contents disk).length
      · rw [Nat.min_eq_left inside]
      · rw [Nat.min_eq_right (by omega), List.drop_length, List.drop_of_length_le (by omega)]
    -- That is what `ReadAt` gives there.
    have reads := readAt_contents laid some small
    rw [piece] at reads
    -- The other pieces begin where this one ends.
    have next := @ih { file with seekPosition := (min (q + size) file.hdr.limit.toNat : Nat) }
      (q + size) laid rfl fun front later back split => by
        have := inRange (size :: front) later back (by rw [split]; rfl)
        rw [List.sum_cons, ← Nat.add_assoc] at this
        exact this
    have moved : ((min q file.hdr.limit.toNat : Nat) : Int) +
        (((file.hdr.contents disk).drop q).take size).length =
        (min (q + size) file.hdr.limit.toNat : Nat) := by
      rw [List.length_take, List.length_drop, FileHeader.length_contents]
      omega
    -- `Read` moves the position by what it has got.
    have first : Fs.Reads disk (file.read size) (((file.hdr.contents disk).drop q).take size,
        { file with seekPosition := (min (q + size) file.hdr.limit.toNat : Nat) }) := by
      unfold read
      rw [position, ← moved]
      exact reads.bind (Fs.Reads.pure disk _)
    -- The pieces are put together.
    refine first.bind (next.bind ?_)
    rintro ⟨pieces, file'⟩ after ⟨rfl, rest⟩
    dsimp only at rest
    refine Program.Yields.pure ⟨rfl, ?_⟩
    rw [rest, cut, List.drop_drop]

/-- A new file, just opened. -/
structure NewFile (disk : Disk) (file : OpenFile) : Prop where
  ready : Ready disk file.hdr
  type : file.hdr.type = .file
  limit : file.hdr.limit = 0
  nsectors : file.hdr.nsectors = 0
  position : file.seekPosition = 0

end OpenFile

/-- What is written to a new file chunk by chunk is read back in pieces of any sizes. -/
theorem sequential_roundTrip {disk : Disk} {file : OpenFile} (new : OpenFile.NewFile disk file)
    {chunks : List (List Byte)} (fits : chunks.flatten.length ≤ maxFileSize)
    (enough : divRoundUp chunks.flatten.length sectorSize + 1 ≤ (freeMapOn disk).numClear) :
    Fs.Yields disk (file.writeAll chunks) fun (results, file') after =>
      results = chunks.map (fun chunk => (chunk.length : Int)) ∧
      file'.length = chunks.flatten.length ∧
      (∀ m q : Nat, 0 < m → q + m < 2 ^ 31 →
        Fs.Reads after (file'.readAt m q) ((chunks.flatten.drop q).take m)) ∧
      ∀ sizes : List Nat, (∀ front size back, sizes = front ++ size :: back →
          0 < size ∧ min front.sum chunks.flatten.length + size < 2 ^ 31) →
        Fs.Yields after ((file'.seek 0).readAll sizes) fun (pieces, _) left =>
          left = after ∧ pieces = cut chunks.flatten sizes := by
  -- A new file holds no bytes, and writing the pieces keeps what it holds.
  have empty : OpenFile.Holds disk file [] := by
    refine ⟨new.ready, new.limit, ?_, new.nsectors, new.position⟩
    unfold FileHeader.contents
    rw [new.limit]
    rfl
  -- There are sectors enough for all of the pieces.
  have roomy : OpenFile.Roomy disk ([] : List Byte).length chunks.flatten.length := by
    unfold OpenFile.Roomy FileHeader.usedSlots
    split <;> split <;> omega
  -- All chunks are written first.
  refine (OpenFile.writeAll_holds fits chunks empty roomy (by simp)).mono ?_
  rintro ⟨results, file'⟩ after ⟨counts, holds⟩
  rw [List.nil_append] at holds
  have laid := holds.ready.laid
  have contents := holds.contents
  refine ⟨counts, holds.limit, fun m q some small => ?_, fun sizes inRange => ?_⟩
  · -- A read at a position gives what is there.
    have reads := OpenFile.readAt_contents laid some small
    rwa [contents] at reads
  -- Reading starts again at the first byte.
  · have total : file'.hdr.limit.toNat = chunks.flatten.length := by
      rw [holds.limit, Int.toNat_natCast]
    -- The reads go on to the end of the file.
    have reads := @OpenFile.readAll_contents after sizes (file'.seek 0) 0 laid
      (by rw [Nat.zero_min]; rfl) fun front size back split => by
        have := inRange front size back split
        rwa [Nat.zero_add, show (file'.seek 0).hdr.limit.toNat = _ from total]
    rwa [List.drop_zero, show (file'.seek 0).hdr.contents after = _ from contents] at reads

/-- Two chunks are written to the new file of the sample disk, and read back as one. -/
theorem sequential_roundTrip_twoChunks :
    Fs.Yields (sampleDisk [] 0) (OpenFile.writeAll ⟨.ofSectors 4 [] 0, 0⟩ [[1, 2, 3], [4, 5]])
      fun (results, file') after => results = [3, 2] ∧ file'.length = 5 ∧
        (∀ m q : Nat, 0 < m → q + m < 2 ^ 31 →
          Fs.Reads after (file'.readAt m q) (([1, 2, 3, 4, 5].drop q).take m)) ∧
        ∀ sizes : List Nat, (∀ front size back, sizes = front ++ size :: back →
            0 < size ∧ min front.sum 5 + size < 2 ^ 31) →
          Fs.Yields after ((file'.seek 0).readAll sizes) fun (pieces, _) left =>
            left = after ∧ pieces = cut [1, 2, 3, 4, 5] sizes := by
  -- The sample disk has a new file.
  have ready : Ready (sampleDisk [] 0) (.ofSectors 4 [] 0) :=
    sampleDisk_ready (by decide) (by decide) (by decide) (by decide)
  -- There are sectors enough on it.
  have clear := @numClear_sampleDisk [] 0 (by decide) (by decide)
  have enough : divRoundUp [[1, 2, 3], [4, 5]].flatten.length sectorSize + 1 ≤
      (freeMapOn (sampleDisk [] 0)).numClear := by
    change 2 ≤ _
    rw [List.length_nil] at clear
    omega
  exact sequential_roundTrip ⟨ready, rfl, rfl, rfl, rfl⟩ (by decide) enough

end Nachos
