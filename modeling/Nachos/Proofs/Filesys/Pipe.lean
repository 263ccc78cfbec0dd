import Nachos.Proofs.Filesys.Careful
import Nachos.Proofs.Filesys.Restart

/-! The pipe: it holds the message that was written to it last, and no other file changes. -/

namespace Nachos

variable {disk middle after : Disk}

section Enough

variable {hdr hdr' : FileHeader} {source : List Byte} {position past : Nat} {fresh : List Nat}

namespace OpenFile

/-- A file that reaches up to `past` has the sectors for that, or as many as it had. -/
theorem sectors_max (laid : hdr.Laid disk) (past : Nat) :
    hdr.nsectors.toNat + wantedFor hdr past =
      max hdr.nsectors.toNat (divRoundUp past sectorSize) := by
  have sizes := laid.sizes
  -- The sectors are as many as the length needs, so the two roundings can be compared.
  unfold wantedFor divRoundUp
  simp only [sectorSize] at *
  split <;> split <;> omega

/-- After a write, a file can be enlarged as far as before. -/
theorem Wrote.affordable (wrote : Wrote disk after hdr hdr' source position fresh)
    (laid : hdr.Laid disk) (affordable : Affordable disk hdr past) : Affordable after hdr' past := by
  refine ⟨affordable.fits, ?_⟩
  have enough := affordable.enough
  have long := wrote.long
  have takes := wrote.takes.numClear
  -- What the file has got is what the write asked for.
  have nsectors : hdr'.nsectors.toNat =
      hdr.nsectors.toNat + wantedFor hdr (position + source.length) := by
    have := wrote.grew.nsectors
    have := laid.counted
    omega
  -- From here on all is a matter of sector counts: those before, those now, those up to `past`.
  unfold FileHeader.neededSlots at *
  rw [sectors_max wrote.laid, nsectors]
  rw [sectors_max laid] at enough long ⊢
  have started := Nat.le_max_left hdr.nsectors.toNat
    (divRoundUp (position + source.length) sectorSize)
  generalize hdr.nsectors.toNat = old at *
  generalize max old (divRoundUp (position + source.length) sectorSize) = now at *
  have slots := FileHeader.usedSlots_mono started
  -- If the file reaches that far already, it needs nothing more.
  by_cases within : divRoundUp past sectorSize ≤ now
  · rw [Nat.max_eq_left within]
    omega
  · -- The file still has to grow, and what it has got is a part of what it needed.
    have further : now ≤ divRoundUp past sectorSize := by omega
    have more := FileHeader.usedSlots_mono further
    rw [Nat.max_eq_right (started.trans further)] at enough
    rw [Nat.max_eq_right further]
    omega

/-- With as many free sectors as a file has slots, any file can be enlarged to any size. -/
theorem affordable_free (laid : hdr.Laid disk) (fits : past ≤ maxFileSize)
    (free : FileHeader.usedSlots (numDirect + numInDirect) ≤ (freeMapOn disk).numClear) :
    Affordable disk hdr past := by
  have slots := FileHeader.usedSlots_mono (reaches laid fits).1
  refine ⟨fits, ?_⟩
  unfold FileHeader.neededSlots
  omega

end OpenFile

end Enough

/-- Nothing has changed but the pipe, and the map by the sectors that the pipe has got. -/
structure PipeOnly (disk after : Disk) : Prop where
  isHeader : ∀ record, IsHeader after record ↔ IsHeader disk record
  header : ∀ record, IsHeader disk record → record ≠ pipeSector → after record = disk record
  contents : ∀ record, IsHeader disk record → record ≠ pipeSector → record ≠ freeMapSector →
    (headerAt after record).contents after = (headerAt disk record).contents disk
  owns : ∀ owner s, Owns disk owner s → Owns after owner s
  marked : ∀ s : Nat, Marked disk s → Marked after s
  taken : ∀ s : Nat, Marked after s → Marked disk s ∨ ∃ j, Owns after (.part pipeSector j) s

namespace PipeOnly

/-- Nothing changes on a disk that stays as it is. -/
theorem refl (disk : Disk) : PipeOnly disk disk :=
  ⟨fun _ => Iff.rfl, fun _ _ _ => rfl, fun _ _ _ _ => rfl, fun _ _ => id, fun _ => id, fun _ => .inl⟩

/-- What two changes in a row keep. -/
theorem trans (first : PipeOnly disk middle) (second : PipeOnly middle after) :
    PipeOnly disk after := by
  refine ⟨fun record => (second.isHeader record).trans (first.isHeader record),
    fun record found other => ?_, fun record found other notMap => ?_,
    fun owner s owns => second.owns owner s (first.owns owner s owns),
    fun s marked => second.marked s (first.marked s marked), fun s marked => ?_⟩
  · -- A header on the first disk is one on the second disk too.
    have still := (first.isHeader record).mpr found
    exact (second.header record still other).trans (first.header record found other)
  · have still := (first.isHeader record).mpr found
    exact (second.contents record still other notMap).trans
      (first.contents record found other notMap)
  · rcases second.taken s marked with before | now
    · -- What the pipe has got first it keeps.
      exact (first.taken s before).imp id fun ⟨j, owns⟩ => ⟨j, second.owns _ _ owns⟩
    · exact .inr now

/-- A write to the pipe. -/
theorem ofWrote {hdr' : FileHeader} {source : List Byte} {position : Nat} {fresh : List Nat}
    (wrote : OpenFile.Wrote disk after (headerAt disk pipeSector) hdr' source position fresh)
    (sound : Sound disk) (isFile : IsFile disk pipeSector) : PipeOnly disk after := by
  have header := isFile.isHeader
  refine ⟨wrote.isHeader_iff sound isFile, fun record => wrote.header_other sound header,
    fun record => wrote.contents_other sound header,
    fun owner s owns => (wrote.owns_iff sound isFile owner s).mpr (.inl owns),
    fun s => wrote.marked, fun s marked => ?_⟩
  -- The bits that the write has set are those of its fresh sectors, and the pipe owns these.
  unfold Marked at marked
  rw [wrote.takes.bit, Bool.or_eq_true, decide_eq_true_iff, Int.toNat_natCast] at marked
  exact marked.symm.imp (fun before => by unfold Marked; rwa [Int.toNat_natCast])
    (wrote.owns_fresh sound isFile)

end PipeOnly

namespace FileSystem

/-- `ReadPipe` reads all that is in the pipe. -/
theorem readPipe_reads (sound : Sound disk) :
    Fs.Reads disk readPipe ((headerAt disk pipeSector).contents disk) := by
  have onDisk : OnDisk pipeSector := by decide
  obtain ⟨laid, -⟩ := sound.laid pipeSector (.fixed .pipe)
  have sizes := laid.sizes
  have limit := laid.limit
  unfold readPipe
  refine (FileHeader.fetchFrom_reads onDisk).bind ((OpenFile.new_reads onDisk).bind ?_)
  -- The length in the header is what is read, so it has to be the length of the contents.
  obtain ⟨count, same⟩ := Int.eq_ofNat_of_zero_le limit.1
  have long := FileHeader.length_contents disk (headerAt disk pipeSector)
  rw [same, Int.toNat_natCast] at long
  rw [same]
  rcases Nat.eq_zero_or_pos count with rfl | some
  · -- Nothing has been written yet, and no bytes are read.
    rw [List.eq_nil_of_length_eq_zero long]
    unfold OpenFile.readAt
    rw [if_pos (.inl (by decide))]
    exact Fs.Reads.pure disk _
  · have small : 0 + count < 2 ^ 31 := by
      simp only [sectorSize] at *
      omega
    have reads := @OpenFile.readAt_contents disk ⟨headerAt disk pipeSector, 0⟩ laid _ _ some small
    rwa [List.drop_zero, List.take_of_length_le (by rw [long])] at reads

/-- `WritePipe` writes a message that there is room for, or that room can be found for. -/
theorem writePipe_yields (sound : Sound disk) (isFile : IsFile disk pipeSector) {data : List Byte}
    (some : 0 < data.length)
    (affordable : OpenFile.Affordable disk (headerAt disk pipeSector) data.length) :
    Fs.Yields disk (writePipe data) fun _ after => ∃ hdr' fresh,
      OpenFile.Wrote disk after (headerAt disk pipeSector) hdr' data 0 fresh := by
  have ready := isFile.ready sound
  unfold writePipe
  refine (OpenFile.new_reads (show OnDisk pipeSector by decide)).bind ?_
  -- The message goes to the beginning of the file.
  refine (@OpenFile.writeAt_yields disk ⟨headerAt disk pipeSector, 0⟩ ready _ 0 some
    ready.laid.limit.1 (by rwa [Nat.zero_add])).bind ?_
  rintro _ after ⟨hdr', fresh, -, wrote⟩
  exact Program.Yields.pure ⟨hdr', fresh, wrote⟩

end FileSystem

/-- A call of a careful run. Reading the pipe and writing to it are always allowed. -/
def PipeCall.Careful (session : Session) : PipeCall → Prop
  | .call made => made.Careful session
  | .readPipe | .writePipe _ => True

namespace Session

/-- The disk is in order, and the pipe is no directory. -/
structure Piped (session : Session) : Prop where
  inOrder : InOrder session
  pipe : (headerAt session.disk pipeSector).type ≠ .dir

variable {session after : Session} {data : List Byte}

namespace Piped

/-- The pipe is a file that can be written. -/
theorem isFile (piped : Piped session) : IsFile session.disk pipeSector :=
  ⟨.fixed .pipe, by decide, piped.pipe⟩

/-- A call that leaves the disk and the file system alone keeps everything in order. -/
theorem idle (piped : Piped session) (idle : Idle session after) : Piped after :=
  ⟨piped.inOrder.congr idle.disk idle.fs, idle.disk ▸ piped.pipe⟩

/-- A write to the pipe keeps everything in order. -/
theorem wrote (piped : Piped session) {hdr' : FileHeader} {position : Nat} {fresh : List Nat}
    (wrote : OpenFile.Wrote session.disk after.disk (headerAt session.disk pipeSector) hdr' data
      position fresh) (same : after.fs = session.fs) : Piped after := by
  have sound := piped.inOrder.sound
  have isFile := piped.isFile
  -- A write changes no type, so the pipe does not become a directory.
  refine ⟨⟨wrote.stillSound sound isFile, ?_⟩, ?_⟩
  · exact same ▸ wrote.stillMounted sound isFile piped.inOrder.mounted
  · rw [wrote.type_same sound isFile isFile.isHeader]
    exact piped.pipe

/-- Each careful call of the file system keeps everything in order. -/
theorem call (piped : Piped session) {call : Call} (careful : call.Careful session)
    (stepped : session.step call = some after) : Piped after := by
  have sound := piped.inOrder.sound
  have pipe : IsHeader session.disk pipeSector := .fixed .pipe
  refine ⟨piped.inOrder.step careful stepped, ?_⟩
  obtain ⟨result, did⟩ := piped.inOrder.did careful stepped
  -- No call changes what kind of file the pipe is.
  have same : (headerAt after.disk pipeSector).type = (headerAt session.disk pipeSector).type := by
    cases did with
    | idle idle => rw [idle.disk]
    | created created =>
      obtain ⟨⟨parent, last, i, sector, fresh, found, created⟩, -, -⟩ := created
      rw [((created.changedAt sound found).part pipe).1]
    -- A careful call makes no directory of the last two sectors.
    | tight tight => exact absurd tight careful.2
    | opened _ _ disk _ _ => rw [disk]
    | wrote writes there wrote =>
      obtain ⟨current, type⟩ := careful_writes careful writes there
      obtain ⟨s, start, fresh, isFile, wrote⟩ := wrote.ofCurrent sound current type
      exact wrote.type_same sound isFile pipe
    | removed _ removed =>
      -- What is removed was named by a directory, and no directory names the pipe.
      obtain ⟨⟨parent, i, found, named, removed⟩, -, -⟩ := removed
      rw [((removed.loses sound found).changed.part pipe).1]
  rw [same]
  exact piped.pipe

/-- Each step of a careful run keeps everything in order. -/
theorem step (piped : Piped session) {call : PipeCall} (careful : call.Careful session)
    (stepped : session.pipeStep call = some after) : Piped after := by
  cases call with
  | call made => exact piped.call careful stepped
  | readPipe => exact piped.idle (readPipe_idle stepped)
  | writePipe data =>
    -- A write that does not come about leaves the disk as it is.
    obtain ⟨same, handles, disk | ⟨hdr', fresh, wrote⟩⟩ :=
      writePipe_cases piped.inOrder.sound piped.isFile stepped
    · exact piped.idle ⟨disk, same, congrArg (List.map known) handles⟩
    · exact piped.wrote wrote same

/-- Everything is in order on a disk that has just been formatted. -/
theorem formatted {world : World} {started : Session} (formats : Session.format world = some started) :
    Piped started := by
  obtain ⟨⟨-, -, -, pipe⟩, -⟩ := Session.formatted formats
  exact ⟨(Accounted.formatted formats).inOrder, by rw [pipe]; decide⟩

/-- A message that there is room for, or that room can be found for, is written. -/
theorem writePipe (piped : Piped session) (some : 0 < data.length)
    (affordable : OpenFile.Affordable session.disk (headerAt session.disk pipeSector) data.length) :
    ∃ after, session.pipeStep (.writePipe data) = .some after ∧ Piped after ∧
      ∃ hdr' fresh, OpenFile.Wrote session.disk after.disk (headerAt session.disk pipeSector) hdr'
        data 0 fresh := by
  obtain ⟨_, after, performed, ⟨hdr', fresh, wrote⟩, same, -⟩ := perform_yields
    (FileSystem.writePipe_yields piped.inOrder.sound piped.isFile some affordable)
  -- What the program does, the step does: it only drops what is returned.
  have stepped : session.pipeStep (.writePipe data) = .some after := by
    show (session.perform (FileSystem.writePipe data)).map Prod.snd = .some after
    rw [performed]
    rfl
  exact ⟨after, stepped, piped.wrote wrote same, hdr', fresh, wrote⟩

/-- What is in the pipe is read, and stays there. -/
theorem readPipe (piped : Piped session) : ∃ after,
    session.perform FileSystem.readPipe =
      some ((headerAt session.disk pipeSector).contents session.disk, after) ∧
    session.pipeStep .readPipe = some after ∧ after.disk = session.disk ∧ Piped after := by
  obtain ⟨_, after, performed, ⟨rfl, disk⟩, same, handles⟩ :=
    perform_yields (FileSystem.readPipe_reads piped.inOrder.sound)
  have stepped : session.pipeStep .readPipe = some after := by
    show (session.perform FileSystem.readPipe).map Prod.snd = some after
    rw [performed]
    rfl
  exact ⟨after, performed, stepped, disk, piped.idle ⟨disk, same, congrArg (List.map known) handles⟩⟩

/-- After messages that there is room for, one by one, the last of them is in the pipe. -/
theorem messages (messages : List (List Byte)) : ∀ {session : Session}, Piped session →
    (∀ message ∈ messages, 0 < message.length ∧ OpenFile.Affordable session.disk
      (headerAt session.disk pipeSector) message.length) →
    ∃ after, replay pipeStep session (messages.map .writePipe) = some after ∧ Piped after ∧
      PipeOnly session.disk after.disk ∧
      (headerAt after.disk pipeSector).contents after.disk = messages.getLast?.getD
        ((headerAt session.disk pipeSector).contents session.disk) := by
  -- One message after the other: the room for those to come is still there after each of them.
  induction messages with
  | nil => exact fun piped _ => ⟨_, rfl, piped, .refl _, rfl⟩
  | cons message rest ih =>
    intro session piped room
    have sound := piped.inOrder.sound
    obtain ⟨some, affordable⟩ := room message List.mem_cons_self
    obtain ⟨middle, stepped, piped', hdr', fresh, wrote⟩ := piped.writePipe some affordable
    -- The disk now has the header that the write has made.
    have self := wrote.header_self sound piped.isFile.isHeader
    obtain ⟨after, ran, piped'', kept, last⟩ := ih piped' fun later member => by
      obtain ⟨some, affordable⟩ := room later (List.mem_cons_of_mem _ member)
      rw [self]
      exact ⟨some, wrote.affordable (sound.laid _ piped.isFile.isHeader).1 affordable⟩
    refine ⟨after, ?_, piped'', (PipeOnly.ofWrote wrote sound piped.isFile).trans kept, ?_⟩
    · rw [List.map_cons, replay_cons stepped]
      exact ran
    · -- The last of the messages is that of the rest, or else this one.
      rw [last, self, wrote.contents_start, List.getLast?_cons, Option.getD_some]

/-- However often the pipe is read, it holds what it held. -/
theorem reads (count : Nat) : ∀ {session : Session}, Piped session →
    ∃ after, replay pipeStep session (.replicate count .readPipe) = some after ∧
      after.disk = session.disk ∧ Piped after := by
  -- No reading changes the disk, so each finds what the one before has found.
  induction count with
  | zero => exact fun piped => ⟨_, rfl, rfl, piped⟩
  | succ count ih =>
    intro session piped
    obtain ⟨middle, -, stepped, disk, piped'⟩ := piped.readPipe
    obtain ⟨after, ran, same, piped''⟩ := ih piped'
    refine ⟨after, ?_, same.trans disk, piped''⟩
    rw [List.replicate_succ, replay_cons stepped]
    exact ran

end Piped

end Session

/--
After any messages that fit a file, and that there are free sectors for, the pipe gives the last one,
however often it is read, and no other file has changed.
-/
theorem pipe_holdsLast {world : World} {started session : Session} {calls : List PipeCall}
    (formats : Session.format world = some started)
    (careful : EveryStep Session.pipeStep (fun session call => call.Careful session) started calls)
    (ran : replay Session.pipeStep started calls = some session)
    {messages : List (List Byte)} {last : List Byte}
    (room : ∀ message ∈ messages ++ [last], 0 < message.length ∧
      OpenFile.Affordable session.disk (headerAt session.disk pipeSector) message.length) :
    ∃ after, replay Session.pipeStep session ((messages ++ [last]).map .writePipe) = some after ∧
      PipeOnly session.disk after.disk ∧
      ∀ count, ∃ later next,
        replay Session.pipeStep after (.replicate count .readPipe) = some later ∧
        later.perform FileSystem.readPipe = some (last, next) := by
  -- Careful calls lead to a disk in order, and the messages are written from there.
  have piped : Session.Piped session := replay_guarded
    (fun _ _ _ piped careful stepped => Session.Piped.step piped careful stepped)
    (Session.Piped.formatted formats) careful ran
  obtain ⟨after, wrote, piped, kept, contents⟩ := piped.messages _ room
  rw [List.getLast?_concat, Option.getD_some] at contents
  refine ⟨after, wrote, kept, fun count => ?_⟩
  -- After the other readings, one more reading still finds the last message.
  obtain ⟨later, read, disk, piped⟩ := piped.reads count
  obtain ⟨next, performed, -⟩ := piped.readPipe
  rw [disk, contents] at performed
  exact ⟨later, next, read, performed⟩

/-- A long message is written to the pipe of a disk that has just been formatted, and a short one. -/
theorem pipe_holdsLast_short : ∃ started after,
    Session.format (World.ofDisk fun _ => .ofBytes []) = some started ∧
      replay Session.pipeStep started [.writePipe (.replicate 2000 7), .writePipe [1, 2, 3]] =
        some after ∧
      PipeOnly started.disk after.disk ∧
      ∀ count, ∃ later next,
        replay Session.pipeStep after (.replicate count .readPipe) = some later ∧
        later.perform FileSystem.readPipe = some ([1, 2, 3], next) := by
  obtain ⟨started, formats⟩ := Session.format_succeeds (World.ofDisk fun _ => .ofBytes [])
  obtain ⟨⟨⟨given, systemOnly⟩, -, free, -⟩, -⟩ := Session.formatted formats
  obtain ⟨laid, -⟩ := systemOnly.sound.laid pipeSector (.fixed .pipe)
  -- All sectors but those of the system files are free.
  have enough : FileHeader.usedSlots (numDirect + numInDirect) ≤
      (freeMapOn started.disk).numClear := by
    rw [free]
    decide
  have room : ∀ message ∈ [.replicate 2000 (7 : Byte)] ++ [[1, 2, 3]], 0 < message.length ∧
      OpenFile.Affordable started.disk (headerAt started.disk pipeSector) message.length := by
    intro message member
    rcases List.mem_pair.mp member with rfl | rfl
    · rw [List.length_replicate]
      exact ⟨by decide, OpenFile.affordable_free laid (by decide) enough⟩
    · exact ⟨by decide, OpenFile.affordable_free laid (by decide) enough⟩
  obtain ⟨after, wrote, kept, reads⟩ :=
    @pipe_holdsLast _ _ _ [] formats trivial rfl _ _ room
  rw [List.singleton_append, List.map_cons, List.map_singleton] at wrote
  exact ⟨started, after, formats, wrote, kept, reads⟩

end Nachos
