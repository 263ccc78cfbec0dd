import Nachos.Proofs.Filesys.SectorOwnership

/-! Careful runs, with failing calls and with removals: what they keep of the disk. -/

namespace Nachos

/-- Has the directory, if it is one, no entries in use? -/
def ListsNothing (disk : Disk) (sector : Int) : Prop :=
  IsDirectory disk sector → ∀ i < numDirEntries, (dirAt disk sector).inUse i = false

/--
A call that is not known to spoil the disk.

Files are of the two ordinary kinds, and a directory is not made of the last two sectors. Writes go
to ordinary files, through handles with the header that the disk has. What is removed has no index
sector, or one that is filled.
-/
def Call.Careful (session : Session) : Call → Prop
  | .create path type =>
    (type = .file ∨ type = .dir) ∧ ¬ Session.Tight session.disk path type
  | .remove path => ∀ sector, Session.Names session.disk path sector →
      ¬ (headerAt session.disk sector).PartIndexed
  | .write handle _ | .writeAt handle _ _ => ∀ held, session.handles[handle]? = some held →
      OpenFile.Current session.disk held.file ∧ held.file.hdr.type = .file
  | _ => True

/-- A careful call that removes no directory but an empty one. -/
def Call.Thrifty (session : Session) (call : Call) : Prop :=
  call.Careful session ∧ ∀ path, call = .remove path →
    ∀ sector, Session.Names session.disk path sector → ListsNothing session.disk sector

/-- A directory without entries in use lists nothing. -/
theorem ListsNothing.entry {disk : Disk} {sector : Int} (empty : ListsNothing disk sector)
    (found : IsDirectory disk sector) (k : Nat) : (holdings disk).entry sector k = none := by
  unfold holdings
  dsimp only
  rw [if_neg]
  rintro ⟨inside, inUse⟩
  rw [empty found k inside] at inUse
  cases inUse

/-- What is marked is owned after a file has been removed, if nothing was below it. -/
theorem Removed.stillExact {disk after : Disk} {parent removed : Int} {i : Nat}
    (left : Removed disk after parent i removed) (sound : Sound disk)
    (found : IsDirectory disk parent) (named : (holdings disk).entry parent i = some removed)
    (exactly : Exact disk) (empty : ListsNothing disk removed) : Exact after := by
  intro s onDisk marked
  obtain ⟨n, rfl⟩ := Int.eq_ofNat_of_zero_le onDisk.1
  -- What is still marked was marked before, and was neither the header nor one of its sectors.
  obtain ⟨before, notSlot, -, notSelf⟩ := (left.bits n).mp marked
  obtain ⟨owner, owns⟩ := exactly n onDisk before
  refine ⟨owner, (left.loses sound found).owns_kept sound.tree found named empty.entry owns notSelf
    fun j there same => ?_⟩
  exact there (notSlot j same)

namespace Session

variable {session after : Session} {call : Call}

/-- A handle that a careful call writes through is current, and one of an ordinary file. -/
theorem careful_writes (careful : call.Careful session) {handle : Nat} {source : List Byte}
    (writes : call.writes = some (handle, source)) {held : Handle}
    (there : session.handles[handle]? = some held) :
    OpenFile.Current session.disk held.file ∧ held.file.hdr.type = .file := by
  -- Only two of the calls write.
  cases call with
  | write _ _ =>
    cases writes
    exact careful held there
  | writeAt _ _ _ =>
    cases writes
    exact careful held there
  | _ => cases writes

/-- What a careful call can do. -/
theorem InOrder.did (inOrder : InOrder session) (careful : call.Careful session)
    (stepped : session.step call = some after) : ∃ result, Did session after call result := by
  obtain ⟨⟨result, next⟩, made, rfl⟩ := Option.map_eq_some_iff.mp stepped
  refine ⟨result, call_did inOrder ?_ ?_ made⟩
  · rintro path kind rfl
    exact careful.1
  · intro handle source writes held there
    obtain ⟨current, type⟩ := careful_writes careful writes there
    exact current.ready type inOrder.sound

/-- A write to a current ordinary file is one to a file that a directory names. -/
theorem WroteIn.ofCurrent {handle : Nat} {held : Handle} {file' : OpenFile} {source : List Byte}
    (wrote : WroteIn session after handle held.file file' source) (sound : Sound session.disk)
    (current : OpenFile.Current session.disk held.file) (type : held.file.hdr.type = .file) :
    ∃ sector start fresh, IsFile session.disk sector ∧ OpenFile.Wrote session.disk after.disk
      (headerAt session.disk sector) file'.hdr source start fresh := by
  obtain ⟨start, fresh, wrote⟩ := wrote.wrote
  rw [← current.header] at wrote
  exact ⟨_, start, fresh, current.isFile type sound, wrote⟩

/-- Each careful call keeps the disk sound. -/
theorem InOrder.step (inOrder : InOrder session) (careful : call.Careful session)
    (stepped : session.step call = some after) : InOrder after := by
  have sound := inOrder.sound
  have mounted := inOrder.mounted
  obtain ⟨result, did⟩ := inOrder.did careful stepped
  -- One case for each thing that a call can do to the disk.
  cases did with
  | idle idle => exact inOrder.congr idle.disk idle.fs
  | created created =>
    obtain ⟨⟨parent, last, i, sector, fresh, found, created⟩, fs, -⟩ := created
    exact ⟨created.stillSound sound found, fs ▸ created.stillMounted sound found mounted⟩
  | tight tight => exact absurd tight careful.2
  | opened _ _ disk fs _ => exact inOrder.congr disk fs
  | wrote writes there wrote =>
    obtain ⟨current, type⟩ := careful_writes careful writes there
    obtain ⟨s, start, fresh, isFile, wrote'⟩ := wrote.ofCurrent sound current type
    exact ⟨wrote'.stillSound sound isFile, wrote.fs ▸ wrote'.stillMounted sound isFile mounted⟩
  | removed names removed =>
    obtain ⟨⟨parent, i, found, named, removed⟩, fs, -⟩ := removed
    exact ⟨removed.stillSound sound found named (careful _ names),
      fs ▸ removed.stillMounted sound found mounted⟩

/-- Each careful call that removes no directory with entries leaves no sector without an owner. -/
theorem InOrder.exactly (inOrder : InOrder session) (exactly : Exact session.disk)
    (thrifty : call.Thrifty session) (stepped : session.step call = some after) :
    Exact after.disk := by
  have sound := inOrder.sound
  obtain ⟨result, did⟩ := inOrder.did thrifty.1 stepped
  -- Only a new file marks more sectors, and only a removal clears some.
  cases did with
  | idle idle => exact idle.disk ▸ exactly
  | created created =>
    obtain ⟨⟨parent, last, i, sector, fresh, found, created⟩, -, -⟩ := created
    exact created.stillExact sound found exactly
  | tight tight => exact absurd tight thrifty.1.2
  | opened _ _ disk _ _ => exact disk ▸ exactly
  | wrote writes there wrote =>
    obtain ⟨current, type⟩ := careful_writes thrifty.1 writes there
    obtain ⟨s, start, fresh, isFile, wrote⟩ := wrote.ofCurrent sound current type
    exact wrote.stillExact sound isFile exactly
  | removed names removed =>
    obtain ⟨⟨parent, i, found, named, removed⟩, -, -⟩ := removed
    exact removed.stillExact sound found named exactly (thrifty.2 _ rfl _ names)

/-- The disk is sound wherever a careful run of a formatted disk ends. -/
theorem InOrder.run {world : World} {started : Session} {calls : List Call}
    (formats : Session.format world = some started)
    (careful : EveryStep Session.step (fun session call => call.Careful session) started calls)
    (ran : replay Session.step started calls = some session) : InOrder session :=
  replay_guarded (fun _ _ _ inOrder careful stepped => InOrder.step inOrder careful stepped)
    (Accounted.formatted formats).inOrder careful ran

/-- Nothing is lost wherever a careful run ends that removes no directory with entries. -/
theorem InOrder.run_exactly {world : World} {started : Session} {calls : List Call}
    (formats : Session.format world = some started)
    (thrifty : EveryStep Session.step (fun session call => call.Thrifty session) started calls)
    (ran : replay Session.step started calls = some session) :
    InOrder session ∧ Exact session.disk := by
  have accounted := Accounted.formatted formats
  -- Both are kept together, since the second one needs a sound disk at every step.
  refine @replay_guarded _ _ _ _ (fun session => InOrder session ∧ Exact session.disk)
    (fun state call next both thrifty stepped => ?_) _ _ _ ⟨accounted.inOrder, accounted.exactly⟩
    thrifty ran
  exact ⟨both.1.step thrifty.1 stepped, both.1.exactly both.2 thrifty stepped⟩

end Session

end Nachos
