import Nachos.Filesys.Kernel
import Nachos.Proofs.Filesys.SynchDisk

/-! What the services of the kernel do to the disk, with or without the cache in front of it. -/

namespace Nachos

namespace CachedWorld

/-- A machine with a cache and one without that agree on everything behind the cache. -/
def Matches (cached : CachedWorld) (world : World) : Prop :=
  cached.synchDisk.Coherent ∧ cached.synchDisk.disk = world.disk ∧
    cached.surroundings = world.surroundings ∧ cached.asked = world.asked

/-- Every request is answered alike with and without the cache. -/
theorem serve_simulates : Program.Simulates Matches serve World.serve := by
  rintro question cached world ⟨coherent, disk, surroundings, asked⟩
  obtain ⟨synchDisk, clock, asks⟩ := cached
  obtain ⟨_, _, _⟩ := world
  dsimp only at coherent disk surroundings asked
  subst disk surroundings asked
  -- Only the two disk questions go through the cache.
  cases question with
  | readSector sectorNumber =>
    by_cases inRange : OnDisk sectorNumber
    · obtain ⟨cache, read, coherent⟩ := SynchDisk.readSector_coherent coherent
        (clock.clock asks).toInt inRange
      simp only [serve, World.serve, Disk.readRequest, if_pos inRange, read]
      exact ⟨rfl, coherent, rfl, rfl, rfl⟩
    · simp only [serve, World.serve, Disk.readRequest, if_neg inRange,
        SynchDisk.readSector_offDisk coherent _ inRange]
      trivial
  | writeSector sectorNumber data =>
    by_cases inRange : OnDisk sectorNumber
    · obtain ⟨after, written, disk, coherent⟩ :=
        SynchDisk.writeSector_coherent coherent inRange data
      simp only [serve, World.serve, Disk.writeRequest, if_pos inRange, written]
      exact ⟨rfl, coherent, disk, rfl, rfl⟩
    · simp only [serve, World.serve, Disk.writeRequest, if_neg inRange,
        SynchDisk.writeSector_offDisk _ inRange]
      trivial
  | allocate numBytes => exact ⟨rfl, coherent, rfl, rfl, rfl⟩
  | totalTicks => exact ⟨rfl, coherent, rfl, rfl, rfl⟩

end CachedWorld

namespace Fs

variable {α β : Type} {disk : Disk} {program : Fs α}

/-- Started on this disk, the program ends with the postcondition on its value and on the disk. -/
abbrev Yields (disk : Disk) (program : Fs α) (post : α → Disk → Prop) : Prop :=
  Program.Yields World.serve World.disk disk program post

/-- Started on this disk, the program does not end. -/
abbrev Refuses (disk : Disk) (program : Fs α) : Prop :=
  Program.Refuses World.serve World.disk disk program

/--
What a program does on the raw disk it does on the disk behind its cache.

This is how every result about the file system carries over to the machine as it is.
-/
theorem Yields.cached {post : α → Disk → Prop} (yields : Yields disk program post)
    {cached : CachedWorld} (coherent : cached.synchDisk.Coherent)
    (same : cached.synchDisk.disk = disk) :
    ∃ value final, program.run CachedWorld.serve cached = some (value, final) ∧
      final.synchDisk.Coherent ∧ post value final.synchDisk.disk := by
  let world : World := ⟨disk, cached.surroundings, cached.asked⟩
  -- The run on the cached disk answers as the run on the plain disk does.
  have related := Program.run_related CachedWorld.serve_simulates program cached world
    ⟨coherent, same, rfl, rfl⟩
  obtain ⟨value, final, ran, holds⟩ := yields world rfl
  rw [ran] at related
  cases answered : program.run CachedWorld.serve cached with
  | none =>
    rw [answered] at related
    exact related.elim
  | some result =>
    rw [answered] at related
    obtain ⟨rfl, coherent, disk, -, -⟩ := related
    exact ⟨_, _, rfl, coherent, disk ▸ holds⟩

/-- A program that does not end on the raw disk does not end behind the cache. -/
theorem Refuses.cached (refuses : Refuses disk program) {cached : CachedWorld}
    (coherent : cached.synchDisk.Coherent) (same : cached.synchDisk.disk = disk) :
    program.run CachedWorld.serve cached = none := by
  let world : World := ⟨disk, cached.surroundings, cached.asked⟩
  have related := Program.run_related CachedWorld.serve_simulates program cached world
    ⟨coherent, same, rfl, rfl⟩
  rw [refuses world rfl] at related
  cases answered : program.run CachedWorld.serve cached with
  | none => rfl
  | some result =>
    rw [answered] at related
    exact related.elim

/-- The program gives this value and leaves the disk as it is. -/
abbrev Reads (disk : Disk) (program : Fs α) (value : α) : Prop :=
  Yields disk program fun given after => given = value ∧ after = disk

/-- What comes after a read goes on with its value. -/
theorem Reads.bind {value : α} (reads : Reads disk program value) {next : α → Fs β}
    {post : β → Disk → Prop} (goesOn : Yields disk (next value) post) :
    Yields disk (program >>= next) post :=
  Program.Yields.bind reads fun _ _ both => by
    obtain ⟨rfl, rfl⟩ := both
    exact goesOn

/-- What comes after a read and does not end makes the whole not end. -/
theorem Reads.bind_refuses {value : α} (reads : Reads disk program value) {next : α → Fs β}
    (refuses : Refuses disk (next value)) : Refuses disk (program >>= next) :=
  Program.Refuses.bind reads fun _ _ both => by
    obtain ⟨rfl, rfl⟩ := both
    exact refuses

/-- A value is read without a look at the disk. -/
theorem Reads.pure (disk : Disk) (value : α) : Reads disk (Pure.pure value) value :=
  Program.Yields.pure ⟨rfl, rfl⟩

/-- An assertion that is passed reads nothing. -/
theorem Reads.assert (disk : Disk) {condition : Bool} (passed : condition = true) :
    Reads disk (Program.assert condition) () :=
  Program.Yields.assert passed ⟨rfl, rfl⟩

/-- An operation on memory reads nothing from the disk. -/
theorem Reads.ofOption (disk : Disk) {value : α} {operation : Option α}
    (gives : operation = some value) : Reads disk (ofOption operation) value := by
  subst gives
  exact Reads.pure disk value

/-- A sector of the disk is read. -/
theorem Reads.sector {sectorNumber : Int} (inRange : OnDisk sectorNumber) :
    Reads disk (readSector sectorNumber) (disk sectorNumber) := by
  rintro world rfl
  refine ⟨world.disk sectorNumber, world, ?_, rfl, rfl⟩
  simp only [readSector, Program.run_ask, World.serve, Disk.readRequest, if_pos inRange]
  rfl

/-- The program gives a value with this property and leaves the disk as it is. -/
abbrev Finds (disk : Disk) (program : Fs α) (property : α → Prop) : Prop :=
  Yields disk program fun given after => after = disk ∧ property given

/-- What comes after such a program may rely on the property, and on nothing else. -/
theorem Finds.bind {property : α → Prop} (finds : Finds disk program property) {next : α → Fs β}
    {post : β → Disk → Prop} (goesOn : ∀ value, property value → Yields disk (next value) post) :
    Yields disk (program >>= next) post :=
  Program.Yields.bind finds fun value _ both => by
    obtain ⟨rfl, holds⟩ := both
    exact goesOn value holds

/-- A value with the property is found where it is. -/
theorem Finds.pure (disk : Disk) {value : α} {property : α → Prop} (holds : property value) :
    Finds disk (Pure.pure value) property :=
  Program.Yields.pure ⟨rfl, holds⟩

/-- A value that is read is found with every property that it has. -/
theorem Reads.finds {value : α} (reads : Reads disk program value) {property : α → Prop}
    (holds : property value) : Finds disk program property :=
  reads.mono fun _ _ both => ⟨both.2, both.1 ▸ holds⟩

/-- Memory has the size that was asked for, and may hold anything. -/
theorem Finds.allocate (disk : Disk) (numBytes : Nat) :
    Finds disk (allocate numBytes) fun bytes => bytes.length = numBytes := by
  rintro world rfl
  refine ⟨world.surroundings.leftover world.asked numBytes, { world with asked := world.asked + 1 },
    ?_, rfl, by simp [Surroundings.leftover]⟩
  simp only [Fs.allocate, Program.run_ask, World.serve]

/-- The time may be anything. -/
theorem Finds.totalTicks (disk : Disk) : Finds disk totalTicks fun _ => True := by
  rintro world rfl
  refine ⟨world.surroundings.clock world.asked, { world with asked := world.asked + 1 }, ?_, rfl,
    trivial⟩
  simp only [Fs.totalTicks, Program.run_ask, World.serve]

/-- A sector of the disk is replaced, and the rest of the program goes on from there. -/
theorem writeSector_bind {sectorNumber : Int} (inRange : OnDisk sectorNumber) {data : Sector}
    {next : Unit → Fs β} {post : β → Disk → Prop}
    (goesOn : Yields (Function.update disk sectorNumber data) (next ()) post) :
    Yields disk (writeSector sectorNumber data >>= next) post := by
  have written : Yields disk (writeSector sectorNumber data) fun _ after =>
      after = Function.update disk sectorNumber data := by
    rintro world rfl
    refine ⟨(), { world with disk := Function.update world.disk sectorNumber data }, ?_, rfl⟩
    simp only [writeSector, Program.run_ask, World.serve, Disk.writeRequest, if_pos inRange]
    rfl
  exact written.bind fun _ _ same => same ▸ goesOn

/-- If the program ends here, it ends with a value that has the property. -/
def Gives (disk : Disk) (program : Fs α) (property : α → Prop) : Prop :=
  ∀ world, world.disk = disk → ∀ value final,
    program.run World.serve world = some (value, final) → property value

/-- What comes after a program that ends gives what it gives from there. -/
theorem Gives.bind {mid : α → Disk → Prop} (begins : Yields disk program mid) {next : α → Fs β}
    {property : β → Prop} (ends : ∀ value middle, mid value middle → Gives middle (next value) property) :
    Gives disk (program >>= next) property := by
  intro world seen value final ran
  -- The first part ends somewhere, and the second part has been run from there.
  obtain ⟨between, middle, first, holds⟩ := begins world seen
  rw [Program.run_bind, first] at ran
  exact ends between middle.disk holds middle rfl value final ran

/-- A program that cannot end with another value gives one with the property. -/
theorem Gives.of_returns {property : α → Prop} (returns : Program.Returns property program)
    (disk : Disk) : Gives disk program property :=
  fun _ _ _ _ ran => returns.holds ran

/-- What is around the machine stays as it is. -/
theorem surroundings_kept {world final : World} {value : α}
    (ran : program.run World.serve world = some (value, final)) :
    final.surroundings = world.surroundings := by
  refine @Program.Asks.kept _ _ _ _ _ _ _ _ World.surroundings (Program.asks_any program)
    (fun question _ state answered served => ?_) _ _ _ ran
  -- A request changes the disk, or the count of requests.
  cases question with
  | readSector sectorNumber =>
    obtain ⟨data, -, same⟩ := Option.bind_eq_some_iff.mp served
    cases same
    rfl
  | writeSector sectorNumber data =>
    obtain ⟨disk, -, same⟩ := Option.bind_eq_some_iff.mp served
    cases same
    rfl
  | allocate numBytes =>
    cases served
    rfl
  | totalTicks =>
    cases served
    rfl

/-- The program goes on like another one, from a disk that has the property. -/
def GoesOn (disk : Disk) (program rest : Fs α) (mid : Disk → Prop) : Prop :=
  ∀ world, world.disk = disk → ∃ middle : World, mid middle.disk ∧
    middle.surroundings = world.surroundings ∧
      program.run World.serve world = rest.run World.serve middle

namespace GoesOn

variable {rest : Fs α} {mid : Disk → Prop}

/-- A program whose first part gives one value goes on with what follows it. -/
theorem of_yields {first : Fs β} {value : β} (yields : Yields disk first fun given after =>
    given = value ∧ mid after) (next : β → Fs α) : GoesOn disk (first >>= next) (next value) mid := by
  intro world seen
  obtain ⟨_, middle, ran, rfl, holds⟩ := yields world seen
  exact ⟨middle, holds, surroundings_kept ran, by rw [Program.run_bind, ran]; rfl⟩

/-- Reading does not matter for how a program goes on. -/
theorem of_reads {first : Fs β} {value : β} (reads : Reads disk first value) {next : β → Fs α}
    (goesOn : GoesOn disk (next value) rest mid) : GoesOn disk (first >>= next) rest mid := by
  intro world seen
  obtain ⟨_, between, ran, rfl, same⟩ := reads world seen
  obtain ⟨middle, holds, around, later⟩ := goesOn between same
  exact ⟨middle, holds, around.trans (surroundings_kept ran),
    by rw [Program.run_bind, ran, ← later]; rfl⟩

/-- The program yields what the other one yields. -/
theorem yields (goesOn : GoesOn disk program rest mid) {post : α → Disk → Prop}
    (ends : ∀ middle, mid middle → Yields middle rest post) : Yields disk program post := by
  intro world seen
  obtain ⟨middle, holds, -, same⟩ := goesOn world seen
  obtain ⟨value, final, ran, post⟩ := ends middle.disk holds middle rfl
  exact ⟨value, final, same.trans ran, post⟩

/-- The program gives what the other one gives. -/
theorem gives (goesOn : GoesOn disk program rest mid) {property : α → Prop}
    (ends : ∀ middle, mid middle → Gives middle rest property) : Gives disk program property := by
  intro world seen value final ran
  obtain ⟨middle, holds, -, same⟩ := goesOn world seen
  exact ends middle.disk holds middle rfl value final (same.symm.trans ran)

/-- The program does not end if the other one does not. -/
theorem refuses (goesOn : GoesOn disk program rest mid)
    (ends : ∀ middle, mid middle → Refuses middle rest) : Refuses disk program := by
  intro world seen
  obtain ⟨middle, holds, -, same⟩ := goesOn world seen
  exact same.trans (ends middle.disk holds middle rfl)

end GoesOn

end Fs

end Nachos
