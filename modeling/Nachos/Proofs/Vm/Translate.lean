import Nachos.Machine.Translate
import Nachos.Proofs.Vm.PageFault

/-! What translations change, and what accesses are made of. -/

namespace Nachos

namespace VmKernel

variable {kernel : VmKernel}

/-- The page table entry that a page table walk leaves behind. -/
def marked (entry : TranslationEntry) (writing : Bool) : TranslationEntry :=
  { entry with dirty := entry.dirty || writing }

/-- The state after a page table walk that found a page in a frame. -/
def walked (kernel : VmKernel) (virtAddr : Word) (writing : Bool) (threadId : Int)
    (space : AddrSpace) : VmKernel :=
  let vpn := virtAddr.toNat / pageSize
  let kernel := { kernel with
    tlb := kernel.tlb.update virtAddr.toNat (space.pageTable vpn).physicalPage
      kernel.currentThread }
  if writing then kernel.setEntry threadId vpn (marked (space.pageTable vpn) true) else kernel

/-- The page of the address is one of the page table in use, and not in memory. -/
def Absent (kernel : VmKernel) (virtAddr : Word) : Prop :=
  ∃ threadId space, kernel.pageTable = some threadId ∧
    kernel.virtMemManager.virtMemTable threadId = some space ∧
    virtAddr.toNat / pageSize < kernel.pageTableSize ∧
    (space.pageTable (virtAddr.toNat / pageSize)).valid = false

/-- What a page table walk can do: raise an exception, or find the page in a frame. -/
theorem walk_cases {virtAddr : Word} {size : Nat} {writing : Bool}
    {result : Except ExceptionType Int} {next : VmKernel}
    (walked : kernel.walk virtAddr size writing = some (result, next)) :
    (∃ exception, result = .error exception ∧ next = kernel ∧
      (exception = .pageFaultException → kernel.Absent virtAddr)) ∨
    ∃ threadId space, kernel.pageTable = some threadId ∧
      kernel.virtMemManager.virtMemTable threadId = some space ∧
      virtAddr.toNat / pageSize < kernel.pageTableSize ∧
      (space.pageTable (virtAddr.toNat / pageSize)).valid = true ∧
      (0 ≤ (space.pageTable (virtAddr.toNat / pageSize)).physicalPage ∧
        (space.pageTable (virtAddr.toNat / pageSize)).physicalPage < numPhysPages) ∧
      result = .ok ((space.pageTable (virtAddr.toNat / pageSize)).physicalPage * pageSize +
        (virtAddr.toNat % pageSize : Nat)) ∧
      next = kernel.walked virtAddr writing threadId space := by
  unfold walk at walked
  dsimp only at walked
  split at walked
  · -- The page is past the end of the page table.
    cases walked
    exact .inl ⟨_, rfl, rfl, fun fault => by cases fault⟩
  -- Within the table, the entry is looked up.
  rename_i inTable
  obtain ⟨threadId, points, walked⟩ := Option.bind_eq_some_iff.mp walked
  obtain ⟨space, held, walked⟩ := Option.bind_eq_some_iff.mp walked
  -- The exceptions of the walk, in the order in which the code looks for them.
  split at walked
  · -- The entry is not valid, which is a page fault.
    rename_i invalid
    cases walked
    exact .inl ⟨_, rfl, rfl, fun _ =>
      ⟨threadId, space, points, held, by omega, by simpa using invalid⟩⟩
  rename_i valid
  -- The entry is read-only, and the access a store.
  split at walked
  · cases walked
    exact .inl ⟨_, rfl, rfl, fun fault => by cases fault⟩
  -- The frame is out of range.
  split at walked
  · cases walked
    exact .inl ⟨_, rfl, rfl, fun fault => by cases fault⟩
  rename_i inRange
  -- The assertion holds, and the entry is marked; else the walk aborts.
  split at walked
  · cases walked
    refine .inr ⟨threadId, space, points, held, by omega, by simpa using valid, by omega, rfl, ?_⟩
    cases writing <;> simp [VmKernel.walked, marked]
  · cases walked

/-- A page table walk to a page that is in memory ends in one of three ways. -/
theorem walk_valid {virtAddr : Word} {size : Nat} {writing : Bool} {threadId : Int}
    {space : AddrSpace}
    (below : virtAddr.toNat / pageSize < kernel.pageTableSize)
    (pointer : kernel.pageTable = some threadId)
    (held : kernel.virtMemManager.virtMemTable threadId = some space)
    (valid : (space.pageTable (virtAddr.toNat / pageSize)).valid = true)
    (fits : virtAddr.toNat % pageSize + size ≤ pageSize) :
    kernel.walk virtAddr size writing = some
      (if (space.pageTable (virtAddr.toNat / pageSize)).readOnly && writing then
        (.error .readOnlyException, kernel)
      else if (space.pageTable (virtAddr.toNat / pageSize)).physicalPage < 0 ∨
          (space.pageTable (virtAddr.toNat / pageSize)).physicalPage ≥ numPhysPages then
        (.error .busErrorException, kernel)
      else (.ok ((space.pageTable (virtAddr.toNat / pageSize)).physicalPage * pageSize +
        (virtAddr.toNat % pageSize : Nat)), kernel.walked virtAddr writing threadId space)) := by
  -- The same tests in the same order, for an entry that is there.
  unfold walk
  dsimp only
  rw [if_neg (by omega)]
  simp only [pointer, held, Option.bind_eq_bind, Option.bind_some, valid, Bool.not_true,
    Bool.false_eq_true, if_false]
  split
  · rfl
  split
  · rfl
  rename_i inRange
  -- The assertion holds, since the access ends in the frame.
  rw [if_pos (by simp only [physicalMemorySize, numPhysPages, pageSize] at *; omega)]
  cases writing <;> simp [walked, marked, valid, pointer]

/-- A page table walk finds a page that is in memory and may be accessed. -/
theorem walk_resident {virtAddr : Word} {size page : Nat} {writing : Bool} {threadId : Int}
    {space : AddrSpace} (below : virtAddr.toNat / pageSize < kernel.pageTableSize)
    (pointer : kernel.pageTable = some threadId)
    (held : kernel.virtMemManager.virtMemTable threadId = some space)
    (valid : (space.pageTable (virtAddr.toNat / pageSize)).valid = true)
    (writable : (space.pageTable (virtAddr.toNat / pageSize)).readOnly = false)
    (frame : (space.pageTable (virtAddr.toNat / pageSize)).physicalPage = page)
    (inRange : page < numPhysPages) (fits : virtAddr.toNat % pageSize + size ≤ pageSize) :
    kernel.walk virtAddr size writing = some
      (.ok ((page * pageSize + virtAddr.toNat % pageSize : Nat) : Int),
        kernel.walked virtAddr writing threadId space) := by
  rw [walk_valid below pointer held valid fits, writable, frame]
  -- None of the exceptions is raised.
  rw [Bool.false_and, if_neg Bool.false_ne_true, if_neg (by omega)]
  push_cast
  rfl

/-- A page table walk to a page that is not in memory raises a page fault. -/
theorem walk_absent {virtAddr : Word} {size : Nat} {writing : Bool} {threadId : Int}
    {space : AddrSpace} (below : virtAddr.toNat / pageSize < kernel.pageTableSize)
    (pointer : kernel.pageTable = some threadId)
    (held : kernel.virtMemManager.virtMemTable threadId = some space)
    (invalid : (space.pageTable (virtAddr.toNat / pageSize)).valid = false) :
    kernel.walk virtAddr size writing = some (.error .pageFaultException, kernel) := by
  unfold walk
  dsimp only
  rw [if_neg (by omega)]
  simp [pointer, held, invalid]

/-- An address is misaligned if the size is two or four and does not divide it. -/
theorem misaligned_iff (addr : Word) (size : Nat) :
    misaligned addr size = true ↔ (size = 4 ∨ size = 2) ∧ addr.toNat % size ≠ 0 := by
  -- The low bits that the code masks out are the remainder.
  have low : ∀ k < 32, (addr &&& BitVec.ofNat 32 (2 ^ k - 1)).toNat = addr.toNat % 2 ^ k := by
    intro k small
    have bound := Nat.pow_lt_pow_right (by decide : 1 < 2) small
    rw [BitVec.toNat_and, BitVec.toNat_ofNat, Nat.mod_eq_of_lt (by omega),
      Nat.and_two_pow_sub_one_eq_mod]
  have masked : ∀ k < 32, addr &&& BitVec.ofNat 32 (2 ^ k - 1) ≠ 0#32 ↔ addr.toNat % 2 ^ k ≠ 0 := by
    intro k small
    rw [← low k small]
    exact not_congr ⟨fun zero => by rw [zero]; rfl, fun zero => BitVec.eq_of_toNat_eq zero⟩
  have four : addr &&& 3#32 ≠ 0#32 ↔ addr.toNat % 4 ≠ 0 := masked 2 (by decide)
  have two : addr &&& 1#32 ≠ 0#32 ↔ addr.toNat % 2 ≠ 0 := masked 1 (by decide)
  -- By cases on the size.
  by_cases isFour : size = 4
  · subst isFour
    simpa [misaligned] using four
  · by_cases isTwo : size = 2
    · subst isTwo
      simpa [misaligned] using two
    · -- Any other size is never misaligned.
      simp [misaligned, isFour, isTwo]

/-- An address that the size divides is aligned. -/
theorem misaligned_of_mod {addr : Word} {size : Nat} (aligned : addr.toNat % size = 0) :
    misaligned addr size = false := by
  by_contra crooked
  exact ((misaligned_iff addr size).mp (by simpa using crooked)).2 aligned

/-- A translation checks the address, and then uses an entry of the TLB or walks the page table. -/
theorem translate_ends {virtAddr : Word} {size : Nat} {writing : Bool}
    {result : Except ExceptionType Int} {next : VmKernel}
    (translated : kernel.translate virtAddr size writing = some (result, next)) :
    (result = .error .addressErrorException ∧ next = kernel) ∨
    misaligned virtAddr size = false ∧
      ((0 ≤ (kernel.tlb.translate virtAddr.toNat).1 ∧
        result = .ok (kernel.tlb.translate virtAddr.toNat).1 ∧
        next = { kernel with tlb := (kernel.tlb.translate virtAddr.toNat).2 }) ∨
      ((kernel.tlb.translate virtAddr.toNat).1 < 0 ∧
        walk { kernel with tlb := (kernel.tlb.translate virtAddr.toNat).2 } virtAddr size writing =
          some (result, next))) := by
  -- The address is misaligned, or in the TLB, or the page table is walked.
  unfold translate at translated
  split at translated
  · -- Misaligned, the access is refused.
    cases translated
    exact .inl ⟨rfl, rfl⟩
  rename_i straight
  refine .inr ⟨by simpa using straight, ?_⟩
  dsimp only at translated
  -- The TLB has the page, or it has not.
  split at translated
  · rename_i found
    cases translated
    exact .inl ⟨found, rfl, rfl⟩
  · rename_i missed
    exact .inr ⟨by omega, translated⟩

/-- What a successful translation can do: use an entry of the TLB, or walk the page table. -/
theorem translate_cases {virtAddr : Word} {size : Nat} {writing : Bool} {physAddr : Int}
    {next : VmKernel}
    (translated : kernel.translate virtAddr size writing = some (.ok physAddr, next)) :
    (0 ≤ physAddr ∧ physAddr = (kernel.tlb.translate virtAddr.toNat).1 ∧
      next = { kernel with tlb := (kernel.tlb.translate virtAddr.toNat).2 }) ∨
    ∃ middle, middle = { kernel with tlb := (kernel.tlb.translate virtAddr.toNat).2 } ∧
      middle.walk virtAddr size writing = some (.ok physAddr, next) := by
  obtain ⟨raised, -⟩ | ⟨-, ⟨found, same, rfl⟩ | ⟨-, walked⟩⟩ := translate_ends translated
  · -- A refused access is not a successful one.
    cases raised
  · -- The TLB has the page.
    cases same
    exact .inl ⟨found, rfl, rfl⟩
  · -- The walk finds the page.
    exact .inr ⟨_, rfl, walked⟩

/-- A page fault is raised for a page that neither the TLB nor the page table maps. -/
theorem translate_fault {virtAddr : Word} {size : Nat} {writing : Bool} {next : VmKernel}
    (translated : kernel.translate virtAddr size writing =
      some (.error .pageFaultException, next)) :
    misaligned virtAddr size = false ∧ (kernel.tlb.translate virtAddr.toNat).1 < 0 ∧
      next = { kernel with tlb := (kernel.tlb.translate virtAddr.toNat).2 } ∧
      kernel.Absent virtAddr := by
  obtain ⟨raised, -⟩ | ⟨straight, ⟨-, found, -⟩ | ⟨missed, walked⟩⟩ := translate_ends translated
  · -- A refused access raises an address error.
    cases raised
  · -- The TLB raises nothing.
    cases found
  · -- The walk raises what the entry says.
    obtain ⟨exception, raised, same, absent⟩ | ⟨_, _, -, -, -, -, -, found, -⟩ := walk_cases walked
    · cases raised
      exact ⟨straight, missed, same, absent rfl⟩
    · cases found

/-- A page table walk moves no page. -/
theorem resident_walked {virtAddr : Word} {threadId : Int} {space : AddrSpace}
    (writing : Bool) (live : kernel.getAddrSpaceOfThread threadId = some space)
    (below : virtAddr.toNat / pageSize < space.numPages) (other : Int) (v : Nat) (page : Int) :
    (kernel.walked virtAddr writing threadId space).Resident other v page ↔
      kernel.Resident other v page := by
  unfold walked
  cases writing with
  -- A read changes no entry.
  | false => exact resident_congr rfl other v page
  | true =>
    -- The entry that was used is marked and is otherwise as it was.
    have marked := resident_setEntry live below
      (marked (space.pageTable (virtAddr.toNat / pageSize)) true) other v page
    refine (resident_congr rfl other v page).trans (marked.trans ?_)
    split
    · rename_i here
      obtain ⟨rfl, rfl⟩ := here
      refine ⟨fun ⟨valid, frame⟩ => ⟨space, live, below, valid, frame⟩, ?_⟩
      rintro ⟨space', live', -, valid, frame⟩
      rw [live] at live'
      cases live'
      exact ⟨valid, frame⟩
    · -- Other entries stay.
      rfl

/-- A translation that raises an exception has not changed more than the TLB. -/
theorem translate_error {virtAddr : Word} {size : Nat} {writing : Bool}
    {exception : ExceptionType} {next : VmKernel}
    (translated : kernel.translate virtAddr size writing = some (.error exception, next)) :
    ∃ tlb, next = { kernel with tlb } := by
  obtain ⟨-, rfl⟩ | ⟨-, ⟨-, found, -⟩ | ⟨-, walked⟩⟩ := translate_ends translated
  · exact ⟨_, rfl⟩
  · cases found
  · obtain ⟨_, -, rfl, -⟩ | ⟨_, _, -, -, -, -, -, found, -⟩ := walk_cases walked
    · exact ⟨_, rfl⟩
    · cases found

/-- An access that finds its page has translated its address, perhaps after a page fault. -/
theorem locate_cases {now : Int} {addr : Word} {size : Nat} {writing : Bool} {physAddr : Nat}
    {next : VmKernel} (located : kernel.locate now addr size writing = some (physAddr, next)) :
    ∃ middle result, middle.translate addr size writing = some (.ok result, next) ∧
      physAddr = result.toNat ∧
      (middle = kernel ∨ ∃ missed,
        kernel.translate addr size writing = some (.error .pageFaultException, missed) ∧
        missed.pageFaultHandler now (addr.toNat / pageSize) = some middle) := by
  -- By cases on the first translation.
  unfold locate at located
  obtain ⟨⟨first, raised⟩, translated, located⟩ := Option.bind_eq_some_iff.mp located
  cases first with
  -- It succeeds.
  | ok result =>
    cases located
    exact ⟨kernel, result, translated, rfl, .inl rfl⟩
  | error exception =>
    -- Only a page fault is served and tried again, once.
    cases exception with
    | pageFaultException =>
      obtain ⟨served, handled, located⟩ := Option.bind_eq_some_iff.mp located
      obtain ⟨⟨second, last⟩, again, located⟩ := Option.bind_eq_some_iff.mp located
      cases second with
      | ok result =>
        cases located
        exact ⟨served, result, again, rfl, .inr ⟨raised, translated, handled⟩⟩
      | error => cases located
    -- Other exceptions are not served.
    | _ => cases located

section Reaching

variable {middle after : VmKernel}

/-- The states that translations, page faults and stores lead to. -/
inductive Reaches (kernel : VmKernel) : VmKernel → Prop
  | refl : Reaches kernel kernel
  | translated {middle after : VmKernel} {virtAddr : Word} {size : Nat} {writing : Bool}
    {result : Except ExceptionType Int} (before : Reaches kernel middle)
    (made : middle.translate virtAddr size writing = some (result, after)) : Reaches kernel after
  | faulted {middle after : VmKernel} {now : Int} {vpn : Nat} (before : Reaches kernel middle)
    (handled : middle.pageFaultHandler now vpn = some after) : Reaches kernel after
  | stored {middle : VmKernel} (mainMemory : MainMemory) (before : Reaches kernel middle) :
    Reaches kernel { middle with mainMemory }

/-- What is reached from a state that is reached is reached. -/
theorem Reaches.trans (front : kernel.Reaches middle) (back : middle.Reaches after) :
    kernel.Reaches after := by
  induction back with
  | refl => exact front
  | translated _ made ih => exact ih.translated made
  | faulted _ handled ih => exact ih.faulted handled
  | stored mainMemory _ ih => exact ih.stored mainMemory

/-- Finding the place of an access is a translation, or two with a page fault in between. -/
theorem locate_reaches {now : Int} {addr : Word} {size : Nat} {writing : Bool} {physAddr : Nat}
    (located : kernel.locate now addr size writing = some (physAddr, after)) :
    kernel.Reaches after := by
  obtain ⟨middle, result, translated, -, rfl | ⟨missed, raised, handled⟩⟩ := locate_cases located
  · exact Reaches.refl.translated translated
  · exact ((Reaches.refl.translated raised).faulted handled).translated translated

/-- A read changes nothing after it has found its place. -/
theorem serve_read {now threadId : Int} {addr : Word} {size : Nat} {result : Option Int}
    (served : kernel.serve now (.read threadId addr size) = some (result, after)) :
    ∃ physAddr, kernel.locate now addr size false = some (physAddr, after) := by
  -- A read by a thread that does not run is not served.
  simp only [serve] at served
  split at served
  · obtain ⟨⟨value, next⟩, read, served⟩ := Option.bind_eq_some_iff.mp served
    cases served
    obtain ⟨⟨physAddr, found⟩, located, read⟩ := Option.bind_eq_some_iff.mp read
    obtain ⟨_, -, read⟩ := Option.bind_eq_some_iff.mp read
    cases read
    exact ⟨physAddr, located⟩
  · cases served

/-- A write stores its value at the place it has found. -/
theorem serve_write {now threadId : Int} {addr : Word} {size : Nat} {value : Word}
    {result : Option Int}
    (served : kernel.serve now (.write threadId addr size value) = some (result, after)) :
    ∃ physAddr found mainMemory, kernel.locate now addr size true = some (physAddr, found) ∧
      after = { found with mainMemory } := by
  -- A store by a thread that does not run is not served.
  simp only [serve] at served
  split at served
  · obtain ⟨next, written, served⟩ := Option.bind_eq_some_iff.mp served
    cases served
    obtain ⟨⟨physAddr, found⟩, located, written⟩ := Option.bind_eq_some_iff.mp written
    dsimp only at written
    -- The size is one that the machine has, or the store aborts.
    split at written
    · cases written
      exact ⟨physAddr, found, _, located, rfl⟩
    · cases written
  · cases served

/-- Is the event an access or a page fault, and not one that makes, deletes or loads a space? -/
def accesses : VmEvent → Bool
  | .fault _ | .read _ _ _ | .write _ _ _ _ => true
  | _ => false

/-- An access is made of translations, page faults and stores. -/
theorem serve_reaches {now : Int} {event : VmEvent} {result : Option Int}
    (access : accesses event = true) (served : kernel.serve now event = some (result, after)) :
    kernel.Reaches after := by
  -- An access may fault once, and a store changes the memory besides.
  cases event with
  | create => cases access
  | delete => cases access
  | switchTo => cases access
  -- A page fault is served.
  | fault vpn =>
    obtain ⟨next, handled, served⟩ := Option.bind_eq_some_iff.mp served
    cases served
    exact Reaches.refl.faulted handled
  -- A read finds its place.
  | read threadId addr size =>
    obtain ⟨physAddr, located⟩ := serve_read served
    exact locate_reaches located
  -- A store finds its place, and changes memory there.
  | write threadId addr size value =>
    obtain ⟨physAddr, found, mainMemory, located, rfl⟩ := serve_write served
    exact (locate_reaches located).stored mainMemory

end Reaching

/-- An aligned access ends in its page, since its size divides both its address and the page. -/
theorem fits_of_aligned {addr : Word} {size : Nat} (sized : size = 1 ∨ size = 2 ∨ size = 4)
    (aligned : addr.toNat % size = 0) : addr.toNat % pageSize + size ≤ pageSize := by
  simp only [pageSize]
  rcases sized with rfl | rfl | rfl <;> omega

/-- An access that raises no address error is aligned. -/
theorem aligned_of_not_misaligned {addr : Word} {size : Nat}
    (sized : size = 1 ∨ size = 2 ∨ size = 4) (straight : misaligned addr size = false) :
    addr.toNat % size = 0 := by
  by_contra crooked
  -- Any address is aligned for a single byte.
  have wide : size = 4 ∨ size = 2 := by
    rcases sized with rfl | rfl | rfl
    · exact absurd (Nat.mod_one _) crooked
    · exact .inr rfl
    · exact .inl rfl
  -- Otherwise the address would have been refused.
  rw [(misaligned_iff addr size).mpr ⟨wide, crooked⟩] at straight
  cases straight

/-- An access that finds its page is aligned. -/
theorem fits_of_located {now : Int} {addr : Word} {size : Nat} {writing : Bool} {physAddr : Nat}
    {next : VmKernel} (sized : size = 1 ∨ size = 2 ∨ size = 4)
    (located : kernel.locate now addr size writing = some (physAddr, next)) :
    addr.toNat % pageSize + size ≤ pageSize := by
  have straight : misaligned addr size = false := by
    cases crooked : misaligned addr size with
    | false => rfl
    | true =>
      -- A misaligned address ends in the exception handler.
      simp [locate, translate, crooked] at located
  exact fits_of_aligned sized (aligned_of_not_misaligned sized straight)

/-- Any one, two or four bytes have a value. -/
theorem valueOf_some {bytes : List Byte}
    (sized : bytes.length = 1 ∨ bytes.length = 2 ∨ bytes.length = 4) :
    ∃ value, valueOf bytes = some value := by
  match bytes with
  | [] => simp at sized
  | [a] => exact ⟨_, rfl⟩
  | [a, b] => exact ⟨_, rfl⟩
  | [a, b, c] => simp at sized
  | [a, b, c, d] => exact ⟨_, rfl⟩
  | _ :: _ :: _ :: _ :: _ :: _ => simp at sized

/-- No other number of bytes has a value. -/
theorem valueOf_none {bytes : List Byte}
    (unsized : ¬ (bytes.length = 1 ∨ bytes.length = 2 ∨ bytes.length = 4)) :
    valueOf bytes = none := by
  match bytes with
  | [] => rfl
  | [a] => simp at unsized
  | [a, b] => simp at unsized
  | [a, b, c] => rfl
  | [a, b, c, d] => simp at unsized
  | _ :: _ :: _ :: _ :: _ :: _ => rfl

end VmKernel

end Nachos
