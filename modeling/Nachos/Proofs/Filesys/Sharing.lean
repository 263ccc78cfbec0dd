import Nachos.Filesys.Sharing
import Nachos.Proofs.Filesys.Sequential
import Nachos.Proofs.Filesys.Session

/-! Open files on one header stay consistent as long as each call finds its copy up to date. -/

namespace Nachos

namespace FileHeader

variable {disk after : Disk} {hdr now : FileHeader}

/-- A copy of a header from before its file has been enlarged, by several writes or by none. -/
structure Older (hdr now : FileHeader) : Prop where
  counted : 0 ≤ hdr.nsectors ∧ hdr.nsectors ≤ now.nsectors
  capacity : hdr.capacity = hdr.nsectors * sectorSize
  limit : 0 ≤ hdr.limit ∧ hdr.limit ≤ hdr.capacity ∧ hdr.limit ≤ now.limit
  self : hdr.selfSector = now.selfSector
  sectors : ∀ j ≤ numDirect, hdr.dataSector j =
    if j < usedSlots hdr.nsectors.toNat then now.dataSector j else 0

/-- A header that has just been read is a copy of itself. -/
theorem Older.refl (laid : now.Laid disk) : Older now now where
  counted := ⟨laid.counted.1, le_refl _⟩
  capacity := laid.capacity
  limit := ⟨laid.limit.1, laid.limit.2, le_refl _⟩
  self := rfl
  sectors j direct := by
    -- A slot past those in use is empty.
    split
    · rfl
    · rename_i past
      rw [← slot_direct disk now direct]
      by_contra there
      exact past ((laid.used j).mp there)

/-- A copy with as many sectors as the header has the same ones. -/
theorem Older.dataSectors (older : Older hdr now) (laid : now.Laid disk)
    (same : hdr.nsectors = now.nsectors) : hdr.dataSectors = now.dataSectors := by
  apply dataSectors_ext
  intro j inside
  have direct : j ≤ numDirect := by omega
  -- Both have the slots in use, and nothing in the others.
  have here : hdr.dataSector j = now.dataSector j := by
    rw [older.sectors j direct, same, ← (Older.refl laid).sectors j direct]
  exact here

/-- A copy with as many sectors as the header can be written through, like the header. -/
theorem Older.ready (older : Older hdr now) (ready : Ready disk now)
    (same : hdr.nsectors = now.nsectors) :
    Ready disk hdr ∧ ∀ j, hdr.slot disk j = now.slot disk j := by
  -- As long as no sector is added, the older copy has the same ones.
  have sectors := older.dataSectors ready.laid same
  have slots : ∀ j, hdr.slot disk j = now.slot disk j := slot_congr sectors fun _ => rfl
  have capacity : hdr.capacity = now.capacity := by
    rw [older.capacity, same, ready.laid.capacity]
  have laid : hdr.Laid disk := ready.laid.congr sectors same capacity older.self
    ⟨older.limit.1, capacity ▸ older.limit.2.1⟩ fun _ => rfl
  refine ⟨⟨laid, ready.mapFile, ready.ofDisk, ready.mapMarked, ?_, fun j there => ?_, ?_,
    fun j => ?_⟩, slots⟩
  · -- The clauses that name the header's own sector.
    rw [older.self]
    exact ready.selfMarked
  · -- The slots are those of the header, and marked like them.
    rw [slots] at there ⊢
    exact ready.slotMarked j there
  · rw [older.self]
    exact ready.selfApart
  · -- Nor is any of them the sector of the map.
    rw [slots]
    exact ready.slotApart j

/-- Every sector that a copy has is found in the same place as by the header. -/
theorem Older.found (older : Older hdr now) (laid : now.Laid disk) :
    hdr.Found disk hdr.nsectors.toNat ∧
      ∀ n < hdr.nsectors.toNat, hdr.block disk n = now.block disk n := by
  have few := older.counted
  -- A slot that the copy uses holds what the header has there.
  have kept : ∀ j ≤ numDirect, j < usedSlots hdr.nsectors.toNat →
      hdr.dataSector j = now.dataSector j := fun j direct used => by
    rw [older.sectors j direct, if_pos used]
  have index : ¬ hdr.nsectors.toNat ≤ numDirect →
      hdr.dataSector numDirect = now.dataSector numDirect := fun many => by
    apply kept numDirect (le_refl _)
    unfold usedSlots
    rw [if_neg many]
    omega
  -- So each block is in the slot where the header has it.
  have blocks : ∀ n < hdr.nsectors.toNat, hdr.block disk n = now.block disk n := by
    intro n counted
    have used := blockSlot_used counted
    unfold block slot
    by_cases direct : blockSlot n ≤ numDirect
    · -- A direct slot is in the copy itself.
      rw [if_pos direct, if_pos direct, kept _ direct used]
    · -- Another one is in the index sector, which the copy knows.
      have many : ¬ hdr.nsectors.toNat ≤ numDirect := by
        unfold blockSlot at direct
        split at direct <;> omega
      rw [if_neg direct, if_neg direct, index many]
  refine ⟨fun n counted => ?_, blocks⟩
  have inside : n < now.nsectors.toNat := by omega
  have search : hdr.byteToSector (n * sectorSize) = now.byteToSector (n * sectorSize) := by
    -- The search looks at one slot of the header, or at that of the index sector.
    have quotient : n * sectorSize / sectorSize = n := Nat.mul_div_cancel n (by decide)
    unfold byteToSector
    rw [quotient]
    by_cases direct : n < numDirect
    · rw [if_pos direct, if_pos direct, kept n (by omega) (by unfold usedSlots; split <;> omega)]
    · rw [if_neg direct, if_neg direct, index (by omega)]
  rw [search, blocks n counted]
  exact ⟨byteToSector_reads laid.mapped inside, (laid.block_inRange inside).1⟩

/-- A copy is one of the header that a write through another copy leaves. -/
theorem Older.grown {base now' : FileHeader} {wanted : Nat} {fresh : List Nat}
    (older : Older hdr now) (latest : Older base now) (laid : now.Laid disk)
    (same : base.nsectors = now.nsectors) (grew : Grew disk after base now' wanted fresh)
    (ends : now.limit ≤ now'.limit) : Older hdr now' where
  -- The copy has no more sectors than before, and the header has no fewer.
  counted := by
    have := older.counted
    rw [grew.nsectors]
    omega
  capacity := older.capacity
  limit := ⟨older.limit.1, older.limit.2.1, older.limit.2.2.trans ends⟩
  self := by rw [older.self, grew.selfSector, latest.self]
  sectors j direct := by
    rw [older.sectors j direct]
    split
    · -- A slot that the copy uses was in use before the write.
      rename_i used
      have counted := older.counted
      have more := usedSlots_mono (show hdr.nsectors.toNat ≤ base.nsectors.toNat by omega)
      have kept := grew.slots j
      rw [if_pos (by omega), slot_direct _ _ direct, slot_direct _ _ direct] at kept
      have sectors := latest.dataSectors laid same
      rw [kept]
      unfold dataSector
      rw [sectors]
    · -- The others are still empty in it.
      rfl

end FileHeader

namespace Sharing

variable {Holder : Type} {sharing next : Sharing Holder} {sector : Int}

/-- The header that the disk has at the sector. -/
abbrev header (sharing : Sharing Holder) (sector : Int) : FileHeader :=
  headerAt sharing.world.disk sector

/-- `ReadAt` through this open file gives what has been written there. -/
def Sees (sharing : Sharing Holder) (holder : Holder) (numBytes position : Int) : Prop :=
  Fs.Reads sharing.world.disk ((sharing.files holder).readAt numBytes position)
    (if position < 0 then [] else (sharing.written.drop position.toNat).take numBytes.toNat)

/-- The sector is one that the header at another one leads to: for bytes, or as its index sector. -/
def Reachable (disk : Disk) (sector : Int) (s : Int) : Prop :=
  s ≠ 0 ∧ ∃ j, (headerAt disk sector).slot disk j = s

/-- Every sector that has been allocated for the file, now or before, is one that it leads to. -/
def LosesNothing (before : Disk) (sector : Int) (sharing : Sharing Holder) : Prop :=
  ∀ s : Nat, Marked sharing.world.disk s →
    ¬ Marked before s ∨ Reachable before sector s → Reachable sharing.world.disk sector s

/-- A read asks for nothing, or goes no further than the copy reaches, or the file itself. -/
def ReadsWithin (hdr now : FileHeader) (numBytes position : Int) : Prop :=
  numBytes ≤ 0 ∨ position < 0 ∨ now.limit ≤ position ∨ position + numBytes ≤ hdr.limit ∨
    hdr.limit = now.limit

/-- A write is refused, or its copy knows all sectors, and it ends where the file does, or later. -/
def WritesUpToDate (hdr now : FileHeader) (source : List Byte) (position : Int) : Prop :=
  source.length = 0 ∨ position > hdr.limit ∨ position < 0 ∨
    (hdr.capacity = now.capacity ∧ now.limit ≤ position + source.length)

/-- The copy of the header that a call uses is up to date, as far as the call uses it. -/
def UpToDate (sector : Int) (sharing : Sharing Holder) : FileCall Holder → Prop
  | .read holder numBytes => ReadsWithin (sharing.files holder).hdr (sharing.header sector) numBytes
      (sharing.files holder).seekPosition
  | .readAt holder numBytes position =>
    ReadsWithin (sharing.files holder).hdr (sharing.header sector) numBytes position
  | .write holder source => WritesUpToDate (sharing.files holder).hdr (sharing.header sector) source
      (sharing.files holder).seekPosition
  | .writeAt holder source position =>
    WritesUpToDate (sharing.files holder).hdr (sharing.header sector) source position

instance (sector : Int) (sharing : Sharing Holder) (call : FileCall Holder) :
    Decidable (UpToDate sector sharing call) :=
  match call with
  | .read _ _ | .readAt _ _ _ => inferInstanceAs (Decidable (_ ∨ _ ∨ _ ∨ _ ∨ _))
  | .write _ _ | .writeAt _ _ _ => inferInstanceAs (Decidable (_ ∨ _ ∨ _ ∨ _ ∧ _))

/-- A file with its header at this sector, ready to be written. -/
structure FileAt (disk : Disk) (sector : Int) : Prop where
  ready : Ready disk (headerAt disk sector)
  self : (headerAt disk sector).selfSector = sector

/-- The files have just been opened, each by a read of the header, and nothing was written since. -/
def opened (Holder : Type) (world : World) (sector : Int) : Sharing Holder where
  world
  files := fun _ => ⟨headerAt world.disk sector, 0⟩
  written := (headerAt world.disk sector).contents world.disk

/-- What every call keeps that finds its copy of the header up to date. -/
structure Invariant (before : Disk) (sector : Int) (sharing : Sharing Holder) : Prop where
  ready : Ready sharing.world.disk (sharing.header sector)
  self : (sharing.header sector).selfSector = sector
  older : ∀ holder, (sharing.files holder).hdr.Older (sharing.header sector)
  contents : (sharing.header sector).contents sharing.world.disk = sharing.written
  reaches : LosesNothing before sector sharing

variable {before : Disk}

/-- A read that its copy of the header allows for sees what has been written. -/
theorem Invariant.sees (inv : Invariant before sector sharing) {holder : Holder}
    {numBytes position : Int}
    (within : ReadsWithin (sharing.files holder).hdr (sharing.header sector) numBytes position)
    (small : position + numBytes < 2 ^ 31) : sharing.Sees holder numBytes position := by
  have older := inv.older holder
  have laid := inv.ready.laid
  unfold Sees
  by_cases nothing : numBytes ≤ 0 ∨ position < 0
  · -- The call returns at once, with nothing.
    have expected : (if position < 0 then [] else
        (sharing.written.drop position.toNat).take numBytes.toNat) = [] := by
      split
      · rfl
      · rw [Int.toNat_of_nonpos (by omega), List.take_zero]
    rw [expected]
    unfold OpenFile.readAt
    dsimp only
    rw [if_pos (by omega)]
    exact Fs.Reads.pure _ _
  -- The position is a number of bytes.
  obtain ⟨q, rfl⟩ := Int.eq_ofNat_of_zero_le (show 0 ≤ position by omega)
  obtain ⟨found, blocks⟩ := older.found laid
  -- The copy's end is within the sectors that it has.
  have reach : (sharing.files holder).hdr.limit ≤
      ((sharing.files holder).hdr.nsectors.toNat * sectorSize : Nat) := by
    have limit := older.limit
    have capacity := older.capacity
    have counted := older.counted
    simp only [sectorSize] at *
    omega
  have reads := OpenFile.readAt_found found q (show 0 < numBytes by omega) small (by omega)
  -- The copy ends the read where the header does.
  have long : min numBytes.toNat ((sharing.files holder).hdr.limit.toNat - q) =
      -- By the reason why the copy is good enough for this read.
      min numBytes.toNat ((sharing.header sector).limit.toNat - q) := by
    have limit := older.limit
    rcases within with none | outside | past | whole | same
    · omega
    · omega
    · omega
    · omega
    · rw [same]
  have bytes : (sharing.files holder).hdr.bytesAt sharing.world.disk q
      (min numBytes.toNat ((sharing.files holder).hdr.limit.toNat - q)) =
        (sharing.header sector).bytesAt sharing.world.disk q
          (min numBytes.toNat ((sharing.files holder).hdr.limit.toNat - q)) := by
    -- Up to there both have the bytes in the same sectors.
    unfold FileHeader.bytesAt
    apply List.map_congr_left
    intro i member
    have below := List.mem_range.mp member
    apply FileHeader.byteAt_congr
    · apply blocks
      simp only [sectorSize] at *
      omega
    · rfl
  -- Those bytes are what has been written.
  rw [bytes, long, OpenFile.bytesAt_contents, inv.contents] at reads
  rw [if_neg (by omega), Int.toNat_natCast]
  exact reads

/-- All copies are in order when the files have just been opened. -/
theorem invariant_opened {world : World} (fileAt : FileAt world.disk sector) :
    Invariant world.disk sector (opened Holder world sector) where
  ready := fileAt.ready
  self := fileAt.self
  older _ := .refl fileAt.ready.laid
  contents := rfl
  reaches _ marked allocated := allocated.resolve_left fun unmarked => unmarked marked

variable [DecidableEq Holder]

/-- Nothing changes for the file when an open file moves on in it. -/
theorem Invariant.moved (inv : Invariant before sector sharing) {holder : Holder} {file : OpenFile}
    (disk : next.world.disk = sharing.world.disk) (written : next.written = sharing.written)
    (files : next.files = Function.update sharing.files holder file)
    (same : file.hdr = (sharing.files holder).hdr) : Invariant before sector next where
  -- The disk is the same, and with it every clause but that on the copies.
  ready := by
    unfold header
    rw [disk]
    exact inv.ready
  self := by
    unfold header
    rw [disk]
    exact inv.self
  older other := by
    unfold header
    rw [disk, files]
    -- The holder's copy of the header is the one it had.
    by_cases here : other = holder
    · rw [here, Function.update_self, same]
      exact inv.older holder
    · rw [Function.update_of_ne here]
      exact inv.older other
  contents := by
    unfold header
    rw [disk, written]
    exact inv.contents
  reaches := by
    unfold LosesNothing
    rw [disk]
    exact inv.reaches

/-- A write through a copy that knows all sectors keeps all copies in order. -/
theorem Invariant.wrote (inv : Invariant before sector sharing) {holder : Holder} {file : OpenFile}
    {source : List Byte} {start : Nat} {fresh : List Nat}
    (same : (sharing.files holder).hdr.nsectors = (sharing.header sector).nsectors)
    (ends : (sharing.header sector).limit ≤ (start + source.length : Nat))
    (started : (start : Int) ≤ (sharing.files holder).hdr.limit)
    (wrote : OpenFile.Wrote sharing.world.disk next.world.disk (sharing.files holder).hdr file.hdr
      source start fresh)
    (files : next.files = Function.update sharing.files holder file)
    (written : next.written = splice 0 sharing.written start source) :
    Invariant before sector next := by
  -- The copy has the sectors of the header, so writing through it is like writing through that.
  have older := inv.older holder
  have laid := inv.ready.laid
  obtain ⟨ready, slots⟩ := older.ready inv.ready same
  have still := wrote.ready ready
  have self : (sharing.files holder).hdr.selfSector = sector := older.self.trans inv.self
  -- The header on the disk is now that of the writer.
  have stored : next.header sector = file.hdr := by
    have stored := wrote.stored
    rw [self] at stored
    exact stored
  refine ⟨?_, ?_, fun other => ?_, ?_, fun s marked allocated => ?_⟩
  · -- The new header is ready.
    rw [stored]
    exact still
  · -- It is still stored in its own sector.
    rw [stored, wrote.grew.selfSector]
    exact self
  · -- Every copy is older than the new header.
    rw [stored, files]
    -- The writer's copy is the header, and the others have grown older.
    by_cases here : other = holder
    · rw [here, Function.update_self]
      exact .refl still.laid
    · rw [Function.update_of_ne here]
      refine (inv.older other).grown older laid same wrote.grew ?_
      rw [wrote.limit]
      exact ends
  · -- The copy may be behind in where the file ends, but not in where its bytes are.
    have limited : FileHeader.contents sharing.world.disk
        { (sharing.files holder).hdr with limit := (sharing.header sector).limit } =
          sharing.written := by
      rw [← inv.contents]
      unfold FileHeader.contents FileHeader.bytesAt
      apply List.map_congr_left
      intro k _
      exact FileHeader.byteAt_congr (slots _) rfl
    have reach := older.limit.2.2
    rw [stored, written, ← limited]
    refine (FileHeader.contents_eq_splice_iff wrote.limit ?_ wrote.bytes_written).mpr ⟨ends, ?_⟩
    · -- The write starts within the file.
      exact started.trans reach
    · -- The bytes before it are kept.
      intro k before
      rw [OpenFile.byteAt_limit]
      exact wrote.bytes_kept k before
  · -- Every sector that the run has marked is still reachable.
    unfold Reachable
    rw [show headerAt next.world.disk sector = file.hdr from stored]
    have bits := wrote.takes.bit s
    by_cases new : s ∈ fresh
    · -- A sector that the write has found is in one of the next slots.
      obtain ⟨i, inside, rfl⟩ := List.mem_iff_getElem.mp new
      have positive := (ready.ofDisk.free (wrote.takes.clear _ new).1
        (wrote.takes.clear _ new).2).1
      refine ⟨by omega, FileHeader.usedSlots (sharing.files holder).hdr.nsectors.toNat + i, ?_⟩
      rw [wrote.grew.slots, if_neg (by omega), Nat.add_sub_cancel_left,
        List.getD_eq_getElem?_getD, List.getElem?_eq_getElem inside, Option.getD_some]
    · -- Any other one was marked before, and stays in its slot.
      have marked' : Marked sharing.world.disk s := by
        unfold Marked at marked ⊢
        rw [Int.toNat_natCast] at marked ⊢
        rw [bits, decide_eq_false new, Bool.false_or] at marked
        exact marked
      obtain ⟨some, j, held⟩ := inv.reaches s marked' allocated
      refine ⟨some, j, ?_⟩
      have old := slots j
      have used : j < FileHeader.usedSlots (sharing.files holder).hdr.nsectors.toNat := by
        rw [← ready.laid.used, old]
        exact held ▸ some
      rw [wrote.grew.slots, if_pos used, old]
      exact held

/-- A write that finds its copy of the header up to date keeps all copies in order. -/
theorem Invariant.writeAt (inv : Invariant before sector sharing) {holder : Holder}
    {given file : OpenFile} {source : List Byte} {position result : Int} {between : Sharing Holder}
    (upToDate : WritesUpToDate (sharing.files holder).hdr (sharing.header sector) source position)
    (performed : sharing.perform ((sharing.files holder).writeAt source position) =
      some ((result, given), between))
    (moved : file.hdr = given.hdr) :
    Invariant before sector ((between.used holder file).record source position result) := by
  obtain ⟨⟨_, world⟩, ran, same⟩ := Option.map_eq_some_iff.mp performed
  cases same
  -- The call writes nothing, or it is in order.
  by_cases nothing : source.length = 0 ∨ position > (sharing.files holder).hdr.limit ∨ position < 0
  · -- The call is refused, and records nothing.
    obtain ⟨same, disk⟩ := (OpenFile.writeAt_idle nothing).holds rfl ran
    cases same
    exact inv.moved disk rfl rfl moved
  -- By the condition the copy has all sectors of the header, and the write reaches its end.
  have older := inv.older holder
  obtain ⟨capacity, ends⟩ : (sharing.files holder).hdr.capacity =
      (sharing.header sector).capacity ∧
        (sharing.header sector).limit ≤ position + source.length := by
    rcases upToDate with empty | past | negative | both
    · exact absurd (.inl empty) nothing
    · exact absurd (.inr (.inl past)) nothing
    · exact absurd (.inr (.inr negative)) nothing
    · exact both
  have same : (sharing.files holder).hdr.nsectors = (sharing.header sector).nsectors := by
    have there := older.capacity
    have here := inv.ready.laid.capacity
    simp only [sectorSize] at there here
    omega
  obtain ⟨ready, -⟩ := older.ready inv.ready same
  -- The write finds its sectors, or has nothing to do.
  rcases OpenFile.writeAt_cases ready rfl ran with ⟨idle, disk⟩ |
    ⟨start, hdr', fresh, rfl, some, started, idle, wrote⟩
  · -- Nothing has been done.
    cases idle
    exact inv.moved disk rfl rfl moved
  · -- The bytes have been written, and the new header is that of the holder.
    cases idle
    have changed : hdr' = file.hdr := moved.symm
    rw [changed] at wrote
    unfold record
    rw [if_neg (by omega)]
    refine inv.wrote same (by exact_mod_cast ends) started wrote rfl ?_
    dsimp only [used]
    rw [Int.toNat_natCast, Int.toNat_natCast, List.take_length]

/-- Every call that finds its copy of the header up to date keeps all copies in order. -/
theorem Invariant.step (inv : Invariant before sector sharing) {call : FileCall Holder}
    (upToDate : sharing.UpToDate sector call) (stepped : sharing.step call = some next) :
    Invariant before sector next := by
  -- By cases on the call.
  cases call with
  | read holder numBytes =>
    obtain ⟨⟨⟨into, file⟩, between⟩, performed, same⟩ := Option.bind_eq_some_iff.mp stepped
    cases same
    obtain ⟨⟨given, world⟩, ran, same⟩ := Option.map_eq_some_iff.mp performed
    cases same
    -- A read leaves the disk alone, and moves on.
    obtain ⟨disk, hdr⟩ := OpenFile.read_run ran
    exact inv.moved disk rfl rfl hdr
  -- So does a read at a place.
  | readAt holder numBytes position =>
    obtain ⟨⟨into, between⟩, performed, same⟩ := Option.bind_eq_some_iff.mp stepped
    cases same
    obtain ⟨⟨given, world⟩, ran, same⟩ := Option.map_eq_some_iff.mp performed
    cases same
    have disk := Fs.disk_kept ((sharing.files holder).asks_readAt numBytes position) ran
    exact inv.moved disk rfl (Function.update_eq_self holder sharing.files).symm rfl
  -- A write is one at the place of the open file.
  | write holder source =>
    obtain ⟨⟨⟨result, file⟩, between⟩, performed, same⟩ := Option.bind_eq_some_iff.mp stepped
    cases same
    obtain ⟨⟨⟨written, given⟩, world⟩, ran, same⟩ := Option.map_eq_some_iff.mp performed
    cases same
    obtain ⟨wrote, wroteAt, rfl⟩ := OpenFile.write_run ran
    have performed : sharing.perform
        ((sharing.files holder).writeAt source (sharing.files holder).seekPosition) =
          some ((result, wrote), { sharing with world }) := by
      unfold perform
      rw [wroteAt]
      rfl
    exact inv.writeAt upToDate performed rfl
  -- A write at a place.
  | writeAt holder source position =>
    obtain ⟨⟨⟨result, file⟩, between⟩, performed, same⟩ := Option.bind_eq_some_iff.mp stepped
    cases same
    exact inv.writeAt upToDate performed rfl

/-- A write that its file is ready for is a step. -/
theorem step_writeAt {holder : Holder} {source : List Byte} {position : Int}
    {post : Int × OpenFile → Disk → Prop}
    (yields : Fs.Yields sharing.world.disk ((sharing.files holder).writeAt source position) post) :
    ∃ result file world, post (result, file) world.disk ∧
      sharing.step (.writeAt holder source position) =
        some ((({ sharing with world } : Sharing Holder).used holder file).record source position
          result) := by
  obtain ⟨⟨result, file⟩, world, ran, holds⟩ := yields sharing.world rfl
  have performed : sharing.perform ((sharing.files holder).writeAt source position) =
      some ((result, file), { sharing with world }) := by
    unfold perform
    rw [ran]
    rfl
  exact ⟨result, file, world, holds, Option.bind_eq_some_iff.mpr ⟨_, performed, rfl⟩⟩

end Sharing

/--
Open files on one header stay consistent, as long as each call finds its copy up to date.

After every call of such a run, a read that finds its copy up to date sees what was last written,
through whichever open file. Every sector that the map has for the file is reached from the header
on the disk.
-/
theorem sharing_consistent {Holder : Type} [DecidableEq Holder] {world : World} {sector : Int}
    (fileAt : Sharing.FileAt world.disk sector) {calls : List (FileCall Holder)}
    {sharing : Sharing Holder}
    (upToDate : EveryStep Sharing.step (fun sharing call => sharing.UpToDate sector call)
      (.opened Holder world sector) calls)
    (ran : replay Sharing.step (.opened Holder world sector) calls = some sharing) :
    (∀ holder numBytes position, sharing.UpToDate sector (.readAt holder numBytes position) →
      position + numBytes < 2 ^ 31 → sharing.Sees holder numBytes position) ∧
    Sharing.LosesNothing world.disk sector sharing := by
  have inv : Sharing.Invariant world.disk sector sharing :=
    replay_guarded (fun _ _ _ inv upToDate stepped => Sharing.Invariant.step inv upToDate stepped)
      (Sharing.invariant_opened fileAt) upToDate ran
  exact ⟨fun _ _ _ within small => inv.sees within small, inv.reaches⟩

section Sample

/-- The header of the file on a sample disk. -/
theorem headerAt_sampleDisk {sectors : List Nat} {limit : Int} (few : sectors.length ≤ numDirect)
    (sized : 0 ≤ limit ∧ limit ≤ sectors.length * sectorSize) (nodup : sectors.Nodup)
    (onDisk : ∀ s ∈ sectors, 4 < s ∧ s < numSectors) :
    headerAt (sampleDisk sectors limit) 4 = .ofSectors 4 sectors limit :=
  have laid := (sampleDisk_ready few sized nodup onDisk).laid
  FileHeader.ofSector_toSector laid.small

/-- The file on a sample disk is ready to be written. -/
theorem fileAt_sampleDisk {sectors : List Nat} {limit : Int} (few : sectors.length ≤ numDirect)
    (sized : 0 ≤ limit ∧ limit ≤ sectors.length * sectorSize) (nodup : sectors.Nodup)
    (onDisk : ∀ s ∈ sectors, 4 < s ∧ s < numSectors) :
    Sharing.FileAt (sampleDisk sectors limit) 4 := by
  refine ⟨?_, ?_⟩
  · rw [headerAt_sampleDisk few sized nodup onDisk]
    exact sampleDisk_ready few sized nodup onDisk
  · rw [headerAt_sampleDisk few sized nodup onDisk]
    rfl

/-- The sample disk with an empty file. -/
theorem headerAt_emptyFile : headerAt (sampleDisk [] 0) 4 = .ofSectors 4 [] 0 :=
  headerAt_sampleDisk (by decide) (by decide) (by decide) (by decide)

/-- Two open files write at the end of a file of two bytes, and both see what is there then. -/
theorem sharing_consistent_bothWrite :
    ∃ sharing, replay Sharing.step (.opened Bool (.ofDisk (sampleDisk [5] 2)) 4)
        [.writeAt false [7] 2, .writeAt true [8, 9] 2] = some sharing ∧
      sharing.written = [0, 0, 8, 9] ∧ sharing.Sees false 3 0 ∧ sharing.Sees true 4 0 ∧
      Sharing.LosesNothing (sampleDisk [5] 2) 4 sharing := by
  -- The second copy does not know of the third byte, but it knows the only sector.
  have between : ((Sharing.opened Bool (.ofDisk (sampleDisk [5] 2)) 4).step
      (.writeAt false [7] 2)).map (fun sharing =>
        decide (sharing.UpToDate 4 (.writeAt true [8, 9] 2))) = some true := by decide +kernel
  -- In the end, the first copy does not know of the fourth byte, which it does not read.
  have atEnd : (replay Sharing.step (.opened Bool (.ofDisk (sampleDisk [5] 2)) 4)
      [.writeAt false [7] 2, .writeAt true [8, 9] 2]).map (fun sharing =>
        (sharing.written, decide (sharing.UpToDate 4 (.readAt false 3 0)),
          decide (sharing.UpToDate 4 (.readAt true 4 0)))) = some ([0, 0, 8, 9], true, true) := by
    decide +kernel
  obtain ⟨middle, stepped, second⟩ := Option.map_eq_some_iff.mp between
  obtain ⟨sharing, ran, shown⟩ := Option.map_eq_some_iff.mp atEnd
  simp only [Prod.mk.injEq, decide_eq_true_eq] at second shown
  obtain ⟨written, low, high⟩ := shown
  have upToDate : EveryStep Sharing.step (fun sharing call => sharing.UpToDate 4 call)
      (.opened Bool (.ofDisk (sampleDisk [5] 2)) 4)
      [.writeAt false [7] 2, .writeAt true [8, 9] 2] :=
    .cons stepped (by decide +kernel) ⟨second, fun _ _ => trivial⟩
  -- Then the theorem says what both copies see.
  obtain ⟨sees, losesNothing⟩ := sharing_consistent
    (fileAt_sampleDisk (by decide) (by decide) (by decide) (by decide)) upToDate ran
  exact ⟨sharing, ran, written, sees false 3 0 low (by decide), sees true 4 0 high (by decide),
    losesNothing⟩

/-- The two open files of the sample disk, before any call. -/
abbrev sampleSharing : Sharing Bool := .opened Bool (.ofDisk (sampleDisk [] 0)) 4

/-- A write of one byte to the empty file, which has as many sectors on any disk. -/
theorem sample_writes {sharing : Sharing Bool} {holder : Bool} {byte : Byte}
    (ready : Ready sharing.world.disk (.ofSectors 4 [] 0))
    (copy : (sharing.files holder).hdr = .ofSectors 4 [] 0)
    (enough : 1 ≤ (freeMapOn sharing.world.disk).numClear) :
    ∃ file world fresh, OpenFile.Wrote sharing.world.disk world.disk (.ofSectors 4 [] 0) file.hdr
        [byte] 0 fresh ∧ fresh.length = 1 ∧
      sharing.step (.writeAt holder [byte] 0) =
        some ((({ sharing with world } : Sharing Bool).used holder file).record [byte] 0 1) := by
  -- The map has a sector to spare.
  have affordable : OpenFile.Affordable sharing.world.disk (.ofSectors 4 [] 0) (0 + 1) :=
    ⟨by decide, enough⟩
  rw [← copy] at ready affordable
  have started : ((0 : Nat) : Int) ≤ (sharing.files holder).hdr.limit := by
    rw [copy]
    exact le_refl _
  -- So the write goes through, and gets one sector.
  have yields := OpenFile.writeAt_yields ready (show 0 < [byte].length from Nat.one_pos) started
    affordable
  obtain ⟨result, file, world, ⟨hdr', fresh, given, wrote⟩, stepped⟩ :=
    Sharing.step_writeAt yields
  cases given
  rw [copy] at wrote
  have needed : (FileHeader.ofSectors 4 [] 0).neededSlots
      (OpenFile.wantedFor (.ofSectors 4 [] 0) 1) = 1 := by decide
  exact ⟨_, world, fresh, wrote, wrote.long.trans needed, stepped⟩

/-- The first write to the sample disk, through the one open file or the other. -/
theorem sample_first (holder : Bool) :
    ∃ file world fresh, OpenFile.Wrote (sampleDisk [] 0) world.disk (.ofSectors 4 [] 0) file.hdr
        [7] 0 fresh ∧ fresh.length = 1 ∧
      replay Sharing.step sampleSharing [.writeAt holder [7] 0] =
        some ((({ sampleSharing with world } : Sharing Bool).used holder file).record [7] 0 1) := by
  -- The file is empty and the map has a sector for it.
  have ready : Ready sampleSharing.world.disk (.ofSectors 4 [] 0) :=
    headerAt_emptyFile ▸
    (fileAt_sampleDisk (by decide) (by decide) (by decide) (by decide)).ready
  have enough : 1 ≤ (freeMapOn sampleSharing.world.disk).numClear := by
    have clear := @numClear_sampleDisk [] 0 (by decide) (by decide)
    change 1 ≤ (freeMapOn (sampleDisk [] 0)).numClear
    rw [List.length_nil] at clear
    omega
  -- The run is this one write.
  obtain ⟨file, world, fresh, wrote, long, stepped⟩ :=
    @sample_writes sampleSharing holder 7 ready headerAt_emptyFile enough
  exact ⟨file, world, fresh, wrote, long, replay_cons stepped []⟩

/-- A file without sectors is ready to be written after another copy of its header has been. -/
theorem sample_stillReady {disk after : Disk} {hdr' : FileHeader} {source : List Byte}
    {position : Nat} {fresh : List Nat} (ready : Ready disk (.ofSectors 4 [] 0))
    (wrote : OpenFile.Wrote disk after (.ofSectors 4 [] 0) hdr' source position fresh) :
    Ready after (.ofSectors 4 [] 0) := by
  have still := wrote.ready ready
  have self : hdr'.selfSector = 4 := wrote.grew.selfSector
  -- The copy still has no sectors, so that only the map and the header matter.
  have empty : ∀ j, (FileHeader.ofSectors 4 [] 0).slot after j = 0 := by
    intro j
    rw [FileHeader.slot_ofSectors after (by decide)]
    rfl
  refine ⟨FileHeader.ofSectors_laid _ (by decide) (by decide) (by decide) (by decide) (by decide),
    still.mapFile, still.ofDisk, still.mapMarked, ?_, fun j there => ?_, ?_, fun j => ?_⟩
  · -- Its own sector is marked.
    have marked := still.selfMarked
    rw [self] at marked
    exact marked
  · -- There are no slots that could be unmarked.
    exact absurd (empty j) there
  · -- Nor is its own sector that of the map.
    have apart := still.selfApart
    rw [self] at apart
    exact apart
  · -- An empty slot is not the sector of the map.
    have positive := still.mapFile.dataSector.2
    rw [empty]
    omega

/--
Two open files of the same file do not stay consistent.

A write through the one is not seen through the other. When the other one writes as well, the sector
that the first has found stays marked, and the header on the disk does not lead to it any more.
-/
theorem sharing_inconsistent :
    ∃ middle last, replay Sharing.step sampleSharing [.writeAt false [7] 0] = some middle ∧
      ¬ middle.Sees true 1 0 ∧ middle.step (.writeAt true [8] 0) = some last ∧
      ¬ Sharing.LosesNothing (sampleDisk [] 0) 4 last := by
  -- The first copy writes, and gets a sector.
  obtain ⟨file, world, fresh, wrote, long, ran⟩ := sample_first false
  have ready : Ready (sampleDisk [] 0) (.ofSectors 4 [] 0) :=
    headerAt_emptyFile ▸
    (fileAt_sampleDisk (by decide) (by decide) (by decide) (by decide)).ready
  -- There is another sector for the second copy.
  have clear : 1 ≤ (freeMapOn world.disk).numClear := by
    have before := @numClear_sampleDisk [] 0 (by decide) (by decide)
    have counted := wrote.takes.numClear
    rw [List.length_nil] at before
    omega
  -- The second copy does not know of the first, and gets a sector of its own.
  obtain ⟨file', world', fresh', wrote', -, stepped⟩ := @sample_writes
    ((({ sampleSharing with world } : Sharing Bool).used false file).record [7] 0 1) true 8
    (sample_stillReady ready wrote) headerAt_emptyFile clear
  refine ⟨_, _, ran, fun sees => ?_, stepped, fun losesNothing => ?_⟩
  · -- The other copy still says that the file is empty.
    have limit : (headerAt (sampleDisk [] 0) 4).limit = 0 := by rw [headerAt_emptyFile]; rfl
    have nothing : Fs.Reads world.disk ((sampleSharing.files true).readAt 1 0) [] := by
      unfold OpenFile.readAt
      dsimp only
      rw [if_pos (.inr (.inr limit.le))]
      exact Fs.Reads.pure _ _
    -- What has been written is one byte.
    have written : splice 0 ((headerAt (sampleDisk [] 0) 4).contents (sampleDisk [] 0)) 0 [7] =
        [(7 : Byte)] := by
      rw [headerAt_emptyFile]
      rfl
    have seen : Fs.Reads world.disk ((sampleSharing.files true).readAt 1 0)
        ((splice 0 ((headerAt (sampleDisk [] 0) 4).contents (sampleDisk [] 0)) 0 [7]).take 1) :=
      sees
    rw [written] at seen
    -- So it reads nothing, where one byte has been written.
    obtain ⟨value, left, read, empty, -⟩ := nothing world rfl
    obtain ⟨full, -⟩ := seen.holds rfl read
    cases empty.symm.trans full
  · -- The sector of the first write was unmarked before, and is marked now.
    obtain ⟨lost, rfl⟩ := List.length_eq_one_iff.mp long
    have marked : Marked world.disk lost := wrote.marked_fresh List.mem_cons_self
    have unmarked : ¬ Marked (sampleDisk [] 0) lost := fun before =>
      OpenFile.fresh_unmarked wrote.takes List.mem_cons_self before rfl
    obtain ⟨some, j, held⟩ := losesNothing lost (wrote'.marked marked) (.inl unmarked)
    -- The header on the disk is that of the second write, with the sector it has found itself.
    have stored : headerAt world'.disk 4 = file'.hdr := wrote'.stored
    change (headerAt world'.disk 4).slot world'.disk j = lost at held
    rw [stored] at held
    have laid := (sample_stillReady ready wrote).laid
    rcases wrote'.grew.slot_cases laid.mapped j with ⟨old, -⟩ | ⟨-, found, member, same, -⟩ | ⟨-, same⟩
    · -- The copy had no sector before the second write.
      have empty := FileHeader.slot_ofSectors world.disk (show [].length ≤ numDirect by decide) 4 0 j
      exact old empty
    · -- The sector it got was not marked, and the lost one was.
      exact OpenFile.fresh_unmarked wrote'.takes member marked (same.symm.trans held)
    · -- An empty slot is no sector.
      exact some (held.symm.trans same)

end Sample

end Nachos
