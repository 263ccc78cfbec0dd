import Nachos.Proofs.Machine.Tlb
import Nachos.Proofs.Vm.Translate
import Nachos.Theory.Run

/-! Translation never leaves physical memory, whoever translates and with whatever page table. -/

namespace Nachos

/-- A call of one of the operations that use the TLB. -/
inductive TlbEvent
  -- Machine::Translate, with the page table and the current thread of a kernel of any kind.
  | translate (kernel : VmKernel) (virtAddr : Word) (size : Nat) (writing : Bool)
  | invalidEntry (threadId : Int) (vpn : Nat)

namespace TLB

/-- The translation of an address by a kernel, through this TLB. -/
def translateFor (tlb : TLB) (kernel : VmKernel) (virtAddr : Word) (size : Nat) (writing : Bool) :
    Option (Except ExceptionType Int × VmKernel) :=
  VmKernel.translate { kernel with tlb } virtAddr size writing

/-- One call on the TLB. -/
def step (tlb : TLB) : TlbEvent → Option TLB
  | .translate kernel virtAddr size writing =>
    (tlb.translateFor kernel virtAddr size writing).map fun answer => answer.2.tlb
  | .invalidEntry threadId vpn => some (tlb.invalidEntry threadId vpn)

/-- No set has two valid entries with one tag, and every valid entry names a frame of the machine. -/
structure Safe (tlb : TLB) : Prop where
  single : ∀ set way other, (tlb set way).valid = true → (tlb set other).valid = true →
    (tlb set way).tag = (tlb set other).tag → way = other
  frames : ∀ set way, (tlb set way).valid = true →
    0 ≤ (tlb set way).ppn ∧ (tlb set way).ppn < numPhysPages

variable {tlb other : TLB}

/-- Nothing is wrong with a TLB that has no valid entry. -/
theorem safe_of_invalid (invalid : ∀ set way, (tlb set way).valid = false) : tlb.Safe where
  single set way _ valid := by
    rw [invalid] at valid
    cases valid
  frames set way valid := by
    rw [invalid] at valid
    cases valid

/-- A TLB is safe if every translation of it is one of a safe TLB, at the same place. -/
theorem Safe.within (safe : tlb.Safe) (within : other.Within tlb) : other.Safe := by
  refine ⟨fun set way way' valid valid' same => ?_, fun set way valid => ?_⟩
  · obtain ⟨before, tag, -⟩ := within set way valid
    obtain ⟨before', tag', -⟩ := within set way' valid'
    exact safe.single set way way' before before' (by rw [← tag, ← tag', same])
  · obtain ⟨before, -, ppn⟩ := within set way valid
    rw [ppn]
    exact safe.frames set way before

/-- A translation that the TLB did not have can be installed. -/
theorem Safe.update (safe : tlb.Safe) {virtAddr : Nat} (missed : tlb.hit (virtAddr / pageSize) = none)
    {pageFrame : Int} (inRange : 0 ≤ pageFrame ∧ pageFrame < numPhysPages) (currentPid : Int) :
    (tlb.update virtAddr pageFrame currentPid).Safe := by
  obtain ⟨chosen, replaced, others⟩ := tlb.update_replaces virtAddr pageFrame currentPid
  -- No entry that counts had the tag already.
  have absent : ∀ way, (tlb (index (virtAddr / pageSize)) way).valid = true →
      (tlb (index (virtAddr / pageSize)) way).tag ≠ tagOf (virtAddr / pageSize) := by
    intro way valid tag
    have nothing := List.find?_eq_none.mp missed way (List.mem_finRange way)
    rw [valid, tag] at nothing
    simp at nothing
  -- So the new entry shares its tag with no other one.
  have alone : ∀ set way, ¬ (set = index (virtAddr / pageSize) ∧ way = chosen) →
      (tlb.update virtAddr pageFrame currentPid set way).valid = true →
      set = index (virtAddr / pageSize) →
      (tlb.update virtAddr pageFrame currentPid set way).tag ≠ tagOf (virtAddr / pageSize) := by
    rintro set way other valid rfl
    obtain ⟨lru, aged⟩ := others _ way other
    rw [aged] at valid ⊢
    exact absent way valid
  -- No tag twice in a set, and every frame in range.
  refine ⟨fun set way way' valid valid' same => ?_, fun set way valid => ?_⟩
  · -- In the set of the page, each of the two entries is the new one, or was there before.
    by_cases row : set = index (virtAddr / pageSize)
    · subst row
      by_cases first : way = chosen
      · by_cases second : way' = chosen
        · rw [first, second]
        · -- The first entry is the new one.
          rw [first, replaced] at same
          exact absurd same.symm (alone _ way' (fun both => second both.2) valid' rfl)
      · by_cases second : way' = chosen
        · -- The second entry is the new one.
          rw [second, replaced] at same
          exact absurd same (alone _ way (fun both => first both.2) valid rfl)
        · -- Both entries were there before.
          obtain ⟨lru, aged⟩ := others _ way fun both => first both.2
          obtain ⟨lru', aged'⟩ := others _ way' fun both => second both.2
          rw [aged] at valid same
          rw [aged'] at valid' same
          exact safe.single _ way way' valid valid' same
    · -- In another set nothing is new.
      obtain ⟨lru, aged⟩ := others set way fun both => row both.1
      obtain ⟨lru', aged'⟩ := others set way' fun both => row both.1
      rw [aged] at valid same
      rw [aged'] at valid' same
      exact safe.single _ way way' valid valid' same
  · -- The new entry is in range by the hypothesis, and the others were before.
    by_cases here : set = index (virtAddr / pageSize) ∧ way = chosen
    · obtain ⟨rfl, rfl⟩ := here
      rw [replaced]
      exact inRange
    · obtain ⟨lru, aged⟩ := others set way here
      rw [aged] at valid ⊢
      exact safe.frames set way valid

/-- Every byte of an access is in one frame of the machine, at its own place in the page. -/
structure InFrame (physAddr : Int) (virtAddr : Word) (size : Nat) : Prop where
  inMemory : 0 ≤ physAddr ∧ physAddr + size ≤ physicalMemorySize
  oneFrame : ∀ i < size, (physAddr + i) / pageSize = physAddr / pageSize
  offset : physAddr % pageSize = virtAddr.toInt % pageSize

/-- An aligned access to a page in a frame of the machine stays in the frame. -/
theorem inFrame_of_aligned {virtAddr : Word} {size : Nat} (sized : size = 1 ∨ size = 2 ∨ size = 4)
    (aligned : VmKernel.misaligned virtAddr size = false) {page : Int}
    (inRange : 0 ≤ page ∧ page < numPhysPages) :
    InFrame (page * pageSize + (virtAddr.toNat % pageSize : Nat)) virtAddr size := by
  -- The access ends in the frame where it begins.
  have fits := VmKernel.fits_of_aligned sized (VmKernel.aligned_of_not_misaligned sized aligned)
  have word : virtAddr.toInt % pageSize = (virtAddr.toNat % pageSize : Nat) := by
    -- A negative address is one that is 2 ^ 32 larger, and so many pages further.
    rw [BitVec.toInt_eq_toNat_cond]
    simp only [pageSize]
    split <;> omega
  -- So the address is in memory, on the same page for each byte, and at the same place in it.
  refine ⟨?_, fun i inside => ?_, ?_⟩
  · simp only [physicalMemorySize, numPhysPages, pageSize] at *
    omega
  · simp only [pageSize] at *
    omega
  · -- The place in the page is the remainder of the signed address, too.
    rw [word]
    simp only [pageSize]
    omega

/-- What a page table walk does to the TLB: nothing, or installing a frame of the machine. -/
theorem walk_tlb {kernel : VmKernel} {virtAddr : Word} {size : Nat} {writing : Bool}
    {result : Except ExceptionType Int} {next : VmKernel}
    (walked : kernel.walk virtAddr size writing = some (result, next)) :
    (∃ exception, result = .error exception ∧ next = kernel) ∨
    ∃ page : Int, (0 ≤ page ∧ page < numPhysPages) ∧
      result = .ok (page * pageSize + (virtAddr.toNat % pageSize : Nat)) ∧
      next.tlb = kernel.tlb.update virtAddr.toNat page kernel.currentThread := by
  rcases VmKernel.walk_cases walked with ⟨exception, raised, same, -⟩ |
    ⟨threadId, space, -, -, -, -, inRange, found, rfl⟩
  · exact .inl ⟨exception, raised, same⟩
  · refine .inr ⟨_, inRange, found, ?_⟩
    unfold VmKernel.walked
    cases writing <;> rfl

/-- What a translation does with a safe TLB, and where the address is that it finds. -/
theorem Safe.translateFor (safe : tlb.Safe) {kernel : VmKernel} {virtAddr : Word} {size : Nat}
    {writing : Bool} {result : Except ExceptionType Int} {next : VmKernel}
    (translated : tlb.translateFor kernel virtAddr size writing = some (result, next)) :
    next.tlb.Safe ∧ ∀ physAddr, result = .ok physAddr →
      VmKernel.misaligned virtAddr size = false ∧ ∃ page : Int, (0 ≤ page ∧ page < numPhysPages) ∧
        physAddr = page * pageSize + (virtAddr.toNat % pageSize : Nat) := by
  unfold TLB.translateFor VmKernel.translate at translated
  split at translated
  · -- A misaligned address is not looked up.
    cases translated
    exact ⟨safe, fun _ ok => by cases ok⟩
  rename_i straight
  have aligned : VmKernel.misaligned virtAddr size = false := by simpa using straight
  dsimp only at translated
  cases found : tlb.hit (virtAddr.toNat / pageSize) with
  | some way =>
    -- The entry names a frame, so the address is not negative and is returned as it is.
    have frame := safe.frames _ way (hit_some found).1
    rw [translate_hit found] at translated
    dsimp only at translated
    have positive : 0 ≤ (tlb (index (virtAddr.toNat / pageSize)) way).ppn * pageSize +
        (virtAddr.toNat % pageSize : Nat) := by
      have scaled := Int.mul_nonneg frame.1 (Int.natCast_nonneg pageSize)
      omega
    rw [if_pos positive] at translated
    cases translated
    refine ⟨safe.within (put_within _ way 0), fun physAddr ok => ⟨aligned, _, frame, ?_⟩⟩
    cases ok
    rfl
  -- The page table is walked, and may give the TLB a new entry.
  | none =>
    rw [translate_miss found] at translated
    dsimp only at translated
    rw [if_neg (by decide)] at translated
    rcases walk_tlb translated with ⟨exception, rfl, rfl⟩ | ⟨page, inRange, rfl, installed⟩
    · -- The walk has raised an exception.
      exact ⟨safe, fun _ ok => by cases ok⟩
    · -- The walk has found a page in range, which the TLB did not have.
      refine ⟨?_, fun physAddr ok => ⟨aligned, page, inRange, ?_⟩⟩
      · rw [installed]
        exact safe.update found inRange _
      · cases ok
        rfl

/-- One call keeps the TLB safe. -/
theorem Safe.step (safe : tlb.Safe) {event : TlbEvent} (stepped : tlb.step event = some other) :
    other.Safe := by
  cases event with
  | translate kernel virtAddr size writing =>
    obtain ⟨⟨result, next⟩, translated, rfl⟩ := Option.map_eq_some_iff.mp stepped
    exact (safe.translateFor translated).1
  | invalidEntry threadId vpn =>
    cases stepped
    exact safe.within (invalidEntry_within threadId vpn)

end TLB

/--
Translation never leaves physical memory.

After any calls, no set of the TLB has two valid entries with one tag, and every valid entry names
a frame of the machine. Whoever translates an address then, and with whatever page table, finds it
in the memory of the machine, in one frame and at its place in the page.
-/
theorem translation_inMemory (start : TLB) (invalid : ∀ set way, (start set way).valid = false)
    (events : List TlbEvent) (tlb : TLB) (reached : replay TLB.step start events = some tlb) :
    tlb.Safe ∧ ∀ (kernel : VmKernel) (virtAddr : Word) (size : Nat) (writing : Bool)
      (physAddr : Int) (next : VmKernel), size = 1 ∨ size = 2 ∨ size = 4 →
      tlb.translateFor kernel virtAddr size writing = some (.ok physAddr, next) →
        TLB.InFrame physAddr virtAddr size := by
  have safe : tlb.Safe := replay_invariant (fun _ _ _ safe stepped => TLB.Safe.step safe stepped)
    (TLB.safe_of_invalid invalid) reached
  refine ⟨safe, fun kernel virtAddr size writing physAddr next sized translated => ?_⟩
  obtain ⟨aligned, page, inRange, rfl⟩ := (safe.translateFor translated).2 physAddr rfl
  exact TLB.inFrame_of_aligned sized aligned inRange

/-- A kernel whose current thread has one page, which is in frame 5. -/
def onePageKernel : VmKernel :=
  { VmKernel.boot (fun _ => none) (fun _ => 0) (fun _ _ => ⟨0, 0, true, 0, 0⟩) (fun _ => ⟨0, 0⟩) 0
    with
    pageTable := some 0
    pageTableSize := 1
    virtMemManager := ⟨1, 1, fun _ => some ⟨0, 1, [], fun _ => ⟨0, 5, true, false, false, false⟩⟩⟩ }

/-- A page is found through the page table, found again through the TLB, and dropped. -/
theorem translation_inMemory_onePage : ∃ tlb physAddr next,
    replay TLB.step (.new fun _ _ => ⟨0, 0, true, 0, 0⟩)
      [.translate onePageKernel 8 4 true, .translate onePageKernel 12 4 false,
        .invalidEntry 3 0] = some tlb ∧
    tlb.translateFor onePageKernel 124 4 false = some (.ok physAddr, next) ∧
    TLB.InFrame physAddr 124 4 := by
  -- The run and the translation are evaluated.
  have evaluated : ((replay TLB.step (.new fun _ _ => ⟨0, 0, true, 0, 0⟩)
      [.translate onePageKernel 8 4 true, .translate onePageKernel 12 4 false,
        .invalidEntry 3 0]).bind fun tlb =>
          (tlb.translateFor onePageKernel 124 4 false).map fun answer => answer.1.toOption) =
      some (some 764) := by
    decide +kernel
  obtain ⟨tlb, reached, translated⟩ := Option.bind_eq_some_iff.mp evaluated
  obtain ⟨⟨result, next⟩, translated, ok⟩ := Option.map_eq_some_iff.mp translated
  cases result with
  | error exception => cases ok
  | ok physAddr =>
    refine ⟨tlb, physAddr, next, reached, translated, ?_⟩
    exact (translation_inMemory _ (fun _ _ => rfl) _ tlb reached).2 onePageKernel 124 4 false
      physAddr next (.inr (.inr rfl)) translated

end Nachos
