import Nachos.Filesys.SynchDisk

/-! The disk cache is invisible: every read returns what the raw disk holds. -/

namespace Nachos

/-- A new cache is coherent, whatever was in the memory for its slots: none of them is valid. -/
theorem SynchDisk.coherent_new (disk : Disk) (uninitialised : Vector DiskCacheEntry diskCacheSize) :
    (SynchDisk.new disk uninitialised).Coherent := by
  intro i valid
  simp [SynchDisk.new] at valid

/-- Storing a coherent slot keeps the others coherent. -/
theorem SynchDisk.Coherent.set {synch : SynchDisk} (coherent : synch.Coherent)
    (index : Fin diskCacheSize) {slot : DiskCacheEntry}
    (fresh : slot.valid = 1 → OnDisk slot.sector ∧ slot.data = synch.disk slot.sector) :
    (synch.store index slot).Coherent := by
  unfold SynchDisk.store
  -- Only the stored slot can differ from what was there.
  intro i
  by_cases same : (index : Nat) = i
  · simpa [Fin.getElem_fin, same] using fresh
  · simpa [Fin.getElem_fin, Vector.getElem_set, same] using coherent i

/-- Storing a slot changes that slot alone. -/
theorem SynchDisk.slot_store (synch : SynchDisk) (index i : Fin diskCacheSize)
    (slot : DiskCacheEntry) :
    (synch.store index slot).slot i = if i = index then slot else synch.slot i := by
  unfold SynchDisk.slot SynchDisk.store
  by_cases same : i = index
  · simp [same]
  · have apart : (index : Nat) ≠ i := fun equal => same (Fin.ext equal.symm)
    simp [Fin.getElem_fin, same, apart]

/-- A slot that the lookup returns holds the sector. -/
theorem SynchDisk.lookup_some {synch : SynchDisk} {sectorNumber : Int} {index : Fin diskCacheSize}
    (found : synch.lookup sectorNumber = some index) :
    (synch.slot index).valid = 1 ∧ (synch.slot index).sector = sectorNumber := by
  unfold SynchDisk.slot
  simpa using List.find?_some found

/-- What a sector holds after some requests: the data last written there, or what it held before. -/
def Disk.lastWritten (disk : Disk) (sectorNumber : Int) (earlier : List DiskRequest) : Sector :=
  earlier.foldl (fun held request => match request with
    | .write target data => if target = sectorNumber then data else held
    | .read _ => held) (disk sectorNumber)

/-- What the reads among some requests should return, given the requests before them. -/
def Disk.expected (disk : Disk) : List DiskRequest → List DiskRequest → List Sector
  | _, [] => []
  | earlier, .read sectorNumber :: rest =>
    disk.lastWritten sectorNumber earlier :: disk.expected (earlier ++ [.read sectorNumber]) rest
  | earlier, .write sectorNumber data :: rest =>
    disk.expected (earlier ++ [.write sectorNumber data]) rest

namespace SynchDisk

/-- A read returns the disk's own contents and keeps the cache coherent. -/
theorem readSector_coherent {synch : SynchDisk} (coherent : synch.Coherent)
    (totalTicks : Int) {sectorNumber : Int} (inRange : OnDisk sectorNumber) :
    ∃ cache, synch.readSector totalTicks sectorNumber =
        some (synch.disk sectorNumber, { synch with cache }) ∧
      Coherent { synch with cache } := by
  unfold readSector
  cases found : synch.lookup sectorNumber with
  | some index =>
    -- A hit copies the slot, whose data is the disk's.
    obtain ⟨valid, same⟩ := lookup_some found
    obtain ⟨_, data⟩ := coherent index valid
    rw [show synch.cache[index].sector = sectorNumber from same] at data
    rw [← data]
    exact ⟨_, rfl, coherent.set index fun _ => coherent index valid⟩
  | none =>
    -- A miss asks the disk and remembers the answer.
    have raw : synch.disk.readRequest sectorNumber = some (synch.disk sectorNumber) :=
      if_pos inRange
    simp only [raw, Option.bind_eq_bind, Option.bind_some]
    exact ⟨_, rfl, coherent.set _ fun _ => ⟨inRange, rfl⟩⟩

/-- A sector number off the disk is never in the cache, so reading it fails the assertion. -/
theorem readSector_offDisk {synch : SynchDisk} (coherent : synch.Coherent)
    (totalTicks : Int) {sectorNumber : Int} (offDisk : ¬ OnDisk sectorNumber) :
    synch.readSector totalTicks sectorNumber = none := by
  unfold readSector
  cases found : synch.lookup sectorNumber with
  | some index =>
    obtain ⟨valid, same⟩ := lookup_some found
    exact absurd (same ▸ (coherent index valid).1) offDisk
  | none => simp only [Disk.readRequest, if_neg offDisk, Option.bind_eq_bind, Option.bind_none]

/-- A write reaches the disk and leaves no slot behind that still shows the old contents. -/
theorem writeSector_coherent {synch : SynchDisk} (coherent : synch.Coherent)
    {sectorNumber : Int} (inRange : OnDisk sectorNumber) (data : Sector) :
    ∃ after, synch.writeSector sectorNumber data = some after ∧
      after.disk = Function.update synch.disk sectorNumber data ∧ after.Coherent := by
  have raw : synch.disk.writeRequest sectorNumber data =
    some (Function.update synch.disk sectorNumber data) := if_pos inRange
  simp only [writeSector, raw, Option.bind_eq_bind, Option.bind_some]
  refine ⟨_, rfl, rfl, ?_⟩
  intro i valid
  -- A slot that survives names another sector, whose contents did not change.
  simp only [Fin.getElem_fin, Vector.getElem_map] at valid ⊢
  split at valid
  · cases valid
  · rename_i other
    rw [if_neg other, Function.update_of_ne other]
    exact coherent i valid

/-- A write off the disk fails the assertion. -/
theorem writeSector_offDisk (synch : SynchDisk) {sectorNumber : Int}
    (offDisk : ¬ OnDisk sectorNumber) (data : Sector) :
    synch.writeSector sectorNumber data = none := by
  simp only [writeSector, Disk.writeRequest, if_neg offDisk, Option.bind_eq_bind, Option.bind_none]

/-- From a coherent cache, any requests are served as the raw disk serves them. -/
theorem serve_eq_disk {requests : List (Int × DiskRequest)} :
    ∀ {synch : SynchDisk}, synch.Coherent →
      (∀ request ∈ requests, OnDisk request.2.sectorNumber) →
      synch.serve requests = synch.disk.serve (requests.map Prod.snd) := by
  -- Each request leaves the cache coherent with the disk it leaves behind.
  induction requests with
  | nil => exact fun _ _ => rfl
  | cons timed rest ih =>
    obtain ⟨totalTicks, request⟩ := timed
    intro synch coherent inRange
    have here : OnDisk request.sectorNumber := inRange (totalTicks, request) (by simp)
    have later : ∀ request ∈ rest, OnDisk request.2.sectorNumber :=
      fun request member => inRange request (by simp [member])
    cases request with
    | read sectorNumber =>
      change OnDisk sectorNumber at here
      obtain ⟨cache, read, coherent⟩ := readSector_coherent coherent totalTicks here
      have raw : synch.disk.readRequest sectorNumber = some (synch.disk sectorNumber) :=
        if_pos here
      simp [serve, Disk.serve, read, raw, ih coherent later]
    | write sectorNumber data =>
      change OnDisk sectorNumber at here
      obtain ⟨after, written, disk, coherent⟩ := writeSector_coherent coherent here data
      have raw : synch.disk.writeRequest sectorNumber data =
        some (Function.update synch.disk sectorNumber data) := if_pos here
      simp [serve, Disk.serve, written, raw, ih coherent later, disk]

end SynchDisk

/-- Writing a sector is what the next read of it sees. -/
theorem Disk.lastWritten_write (disk : Disk) (earlier : List DiskRequest) (sectorNumber : Int)
    (data : Sector) :
    (fun n => disk.lastWritten n (earlier ++ [.write sectorNumber data])) =
      Function.update (fun n => disk.lastWritten n earlier) sectorNumber data := by
  funext n
  by_cases same : n = sectorNumber
  · subst same
    simp [lastWritten]
  · simp [lastWritten, same, Ne.symm same]

/-- Reading a sector changes nothing. -/
theorem Disk.lastWritten_read (disk : Disk) (earlier : List DiskRequest) (sectorNumber : Int) :
    (fun n => disk.lastWritten n (earlier ++ [.read sectorNumber])) =
      fun n => disk.lastWritten n earlier := by
  funext n
  simp [lastWritten]

/-- The raw disk answers each read with the data last written there. -/
theorem Disk.serve_eq_expected (disk : Disk) (requests : List DiskRequest) :
    ∀ earlier : List DiskRequest, (∀ request ∈ requests, OnDisk request.sectorNumber) →
      Disk.serve (fun n => disk.lastWritten n earlier) requests =
        some (disk.expected earlier requests) := by
  -- The state of the raw disk is a function of the requests it has served.
  induction requests with
  | nil => exact fun _ _ => rfl
  | cons request rest ih =>
    intro earlier inRange
    have here : OnDisk request.sectorNumber := inRange request (by simp)
    have later := fun request member => inRange request (List.mem_cons_of_mem _ member)
    cases request with
    | read sectorNumber =>
      have next := ih (earlier ++ [.read sectorNumber]) later
      rw [lastWritten_read] at next
      have raw : Disk.readRequest (fun n => disk.lastWritten n earlier) sectorNumber =
        some (disk.lastWritten sectorNumber earlier) := if_pos here
      simp [serve, expected, raw, next]
    | write sectorNumber data =>
      have next := ih (earlier ++ [.write sectorNumber data]) later
      rw [lastWritten_write] at next
      have raw : Disk.writeRequest (fun n => disk.lastWritten n earlier) sectorNumber data =
        some (Function.update (fun n => disk.lastWritten n earlier) sectorNumber data) :=
        if_pos here
      simp [serve, expected, raw, next]

/--
The disk cache cannot be seen through the disk's interface.

From any disk, any leftover contents of the cache and any readings of the clock, each read returns
what the raw disk returns: the data last written to the sector, or what the disk started with.
-/
theorem diskCache_invisible (disk : Disk)
    (uninitialised : Vector DiskCacheEntry diskCacheSize) (requests : List (Int × DiskRequest))
    (inRange : ∀ request ∈ requests, OnDisk request.2.sectorNumber) :
    (SynchDisk.new disk uninitialised).serve requests = disk.serve (requests.map Prod.snd) ∧
    disk.serve (requests.map Prod.snd) = some (disk.expected [] (requests.map Prod.snd)) := by
  refine ⟨SynchDisk.serve_eq_disk (SynchDisk.coherent_new disk uninitialised) inRange, ?_⟩
  refine disk.serve_eq_expected (requests.map Prod.snd) [] fun request member => ?_
  obtain ⟨timed, member, same⟩ := List.mem_map.mp member
  exact same ▸ inRange timed member

/-- Two reads of a sector around a write of it, the first of which leaves it in the cache. -/
theorem diskCache_invisible_rewritten :
    (SynchDisk.new (fun _ => .replicate sectorSize 7)
        (.replicate diskCacheSize ⟨1, 0, 5, 0, .replicate sectorSize 9⟩)).serve
      [(10, .read 5), (20, .write 5 (.replicate sectorSize 8)), (30, .read 5)] =
      some [.replicate sectorSize 7, .replicate sectorSize 8] := by
  have served := diskCache_invisible (fun _ => .replicate sectorSize 7)
    (.replicate diskCacheSize ⟨1, 0, 5, 0, .replicate sectorSize 9⟩)
    [(10, .read 5), (20, .write 5 (.replicate sectorSize 8)), (30, .read 5)]
    (by simp [DiskRequest.sectorNumber, OnDisk])
  rw [served.1, served.2]
  simp [Disk.expected, Disk.lastWritten]

end Nachos
