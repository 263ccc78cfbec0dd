import Nachos.Proofs.Machine.Mipssim
import Nachos.Proofs.Machine.Tlb
import Nachos.Proofs.Vm.Translate
import Nachos.Theory.Lanes

/-! Words at any address: the two instructions that load one, and the two that store one. -/

namespace Nachos

/-- The page is in the frame, whether it is looked up in the TLB or in the page table in use. -/
structure VmKernel.InFrame (kernel : VmKernel) (vpn page : Nat) (writing : Bool) : Prop where
  cached : ∀ way, (kernel.tlb (TLB.index vpn) way).valid = true →
    (kernel.tlb (TLB.index vpn) way).tag = TLB.tagOf vpn →
    (kernel.tlb (TLB.index vpn) way).ppn = page
  inTable : vpn < kernel.pageTableSize
  held : ∃ threadId space, kernel.pageTable = some threadId ∧
    kernel.virtMemManager.virtMemTable threadId = some space ∧
    (space.pageTable vpn).valid = true ∧ (space.pageTable vpn).physicalPage = page ∧
    ((space.pageTable vpn).readOnly && writing) = false
  inMemory : page < numPhysPages

namespace VmKernel

variable {kernel next : VmKernel}

/-- Every page is in the frame that it was in before. -/
def SameFrames (kernel next : VmKernel) : Prop :=
  ∀ vpn page writing, vpn < 2 ^ 32 → kernel.InFrame vpn page writing → next.InFrame vpn page writing

/-- What may be written may be read. -/
theorem InFrame.toRead {vpn page : Nat} {writing : Bool} (found : kernel.InFrame vpn page writing) :
    kernel.InFrame vpn page false := by
  obtain ⟨threadId, space, pointer, live, valid, frame, -⟩ := found.held
  exact ⟨found.cached, found.inTable,
    ⟨threadId, space, pointer, live, valid, frame, Bool.and_false _⟩, found.inMemory⟩

/-- A TLB with no other translations leaves every page where it was. -/
theorem sameFrames_within {tlb : TLB} (within : tlb.Within kernel.tlb) :
    kernel.SameFrames { kernel with tlb } := by
  intro vpn page writing _ found
  refine ⟨fun way valid tag => ?_, found.inTable, found.held, found.inMemory⟩
  obtain ⟨there, sameTag, samePage⟩ := within _ way valid
  rw [samePage]
  exact found.cached way there (sameTag ▸ tag)

/-- A page table walk leaves every page where it was. -/
theorem sameFrames_walked {virtAddr : Word} (writing : Bool) {threadId : Int}
    {space : AddrSpace} (pointer : kernel.pageTable = some threadId)
    (live : kernel.virtMemManager.virtMemTable threadId = some space) :
    kernel.SameFrames (kernel.walked virtAddr writing threadId space) := by
  intro vpn other mode small found
  -- The page belongs to the address space whose page table is walked.
  obtain ⟨holder, its, points, lives, valid, place, admitted⟩ := found.held
  rw [pointer] at points
  cases points
  rw [live] at lives
  cases lives
  have bounded : virtAddr.toNat / pageSize < 2 ^ 32 :=
    Nat.lt_of_le_of_lt (Nat.div_le_self _ _) virtAddr.isLt
  -- The translation that the walk installs is the one in the page table.
  have cached : ∀ way,
      (kernel.tlb.update virtAddr.toNat (space.pageTable (virtAddr.toNat / pageSize)).physicalPage
        kernel.currentThread (TLB.index vpn) way).valid = true →
      (kernel.tlb.update virtAddr.toNat (space.pageTable (virtAddr.toNat / pageSize)).physicalPage
        kernel.currentThread (TLB.index vpn) way).tag = TLB.tagOf vpn →
      (kernel.tlb.update virtAddr.toNat (space.pageTable (virtAddr.toNat / pageSize)).physicalPage
        kernel.currentThread (TLB.index vpn) way).ppn = other := by
    intro way set tag
    obtain ⟨here, sameTag, samePage⟩ | ⟨there, sameTag, samePage⟩ :=
      TLB.update_entries virtAddr.toNat _ kernel.currentThread _ way set
    · -- It is the entry that was put in, which is of the page of the address.
      have same : vpn = virtAddr.toNat / pageSize :=
        TLB.eq_of_tag_index small bounded (tag.symm.trans sameTag) here
      rw [samePage, ← same, place]
    · -- It is one that was there before.
      rw [samePage]
      exact found.cached way there (sameTag ▸ tag)
  cases writing with
  -- A walk for a read changes the TLB only.
  | false =>
    exact ⟨cached, found.inTable, ⟨threadId, space, pointer, live, valid, place, admitted⟩,
      found.inMemory⟩
  | true =>
    -- The entry that was used is marked, and is as it was otherwise.
    refine ⟨cached, found.inTable, ⟨threadId, space.setEntry (virtAddr.toNat / pageSize)
      (marked (space.pageTable (virtAddr.toNat / pageSize)) true), pointer, ?_, ?_⟩, found.inMemory⟩
    · simp [walked, setEntry, VirtMemManager.setEntry, live]
    · -- The entry of the page is marked, or it is not the one that was used.
      by_cases same : vpn = virtAddr.toNat / pageSize
      · subst same
        simp only [AddrSpace.setEntry, marked, Function.update_self]
        exact ⟨valid, place, admitted⟩
      · simp only [AddrSpace.setEntry, Function.update_of_ne same]
        exact ⟨valid, place, admitted⟩

/-- The place in memory of an address whose page is in the frame. -/
def place (page : Nat) (addr : Word) : Nat := page * pageSize + addr.toNat % pageSize

/-- An aligned access to a page in a frame finds its place, and moves nothing. -/
theorem translate_inFrame {addr : Word} {size page : Nat} {writing : Bool}
    (sized : size = 1 ∨ size = 2 ∨ size = 4) (aligned : addr.toNat % size = 0)
    (found : kernel.InFrame (addr.toNat / pageSize) page writing) :
    ∃ next, kernel.translate addr size writing = some (.ok (place page addr : Int), next) ∧
      next.mainMemory = kernel.mainMemory ∧ kernel.SameFrames next := by
  have straight := misaligned_of_mod aligned
  obtain ⟨threadId, space, pointer, live, valid, frame, admitted⟩ := found.held
  -- An aligned access is not refused before the page is looked for.
  unfold translate
  rw [straight]
  simp only [Bool.false_eq_true, if_false]
  cases hit : kernel.tlb.hit (addr.toNat / pageSize) with
  | some way =>
    -- The TLB maps the page, and has it in the same frame.
    obtain ⟨set, tag⟩ := TLB.hit_some hit
    have physical : (kernel.tlb.translate addr.toNat).1 = (place page addr : Int) := by
      rw [TLB.translate_hit hit, found.cached way set tag, place]
      push_cast
      rfl
    have inRange : (kernel.tlb.translate addr.toNat).1 ≥ 0 := by omega
    refine ⟨{ kernel with tlb := (kernel.tlb.translate addr.toNat).2 }, ?_, rfl,
      -- The answer of the TLB is taken as it is.
      sameFrames_within (TLB.translate_within addr.toNat)⟩
    rw [if_pos inRange, physical]
  | none =>
    -- The page table has it there, and the TLB learns so.
    rw [TLB.translate_miss hit]
    simp only [show ¬ (-1 : Int) ≥ 0 by omega, if_false]
    have walked := @walk_valid kernel addr size writing threadId space found.inTable pointer live
      valid (fits_of_aligned sized aligned)
    -- The frame is within memory, so the walk gives no bus error.
    have inRange := found.inMemory
    rw [admitted, frame, if_neg Bool.false_ne_true, if_neg (by omega)] at walked
    refine ⟨kernel.walked addr writing threadId space, walked.trans ?_, ?_,
      sameFrames_walked writing pointer live⟩
    · rw [place]
      push_cast
      rfl
    · cases writing <;> rfl

end VmKernel

namespace Machine

/-- The address of the aligned word that an address is in. -/
def wordAddr (addr : Word) : Word := addr - byteOf addr

/-- The low bits of an address are its place in that word. -/
theorem byteOf_eq (addr : Word) : byteOf addr = BitVec.ofNat 32 (addr.toNat % 4) := by
  apply BitVec.eq_of_toNat_eq
  rw [byteOf, BitVec.toNat_and, BitVec.toNat_ofNat, Nat.mod_eq_of_lt (by omega)]
  exact Nat.and_two_pow_sub_one_eq_mod addr.toNat 2

/-- As a number, that is the address rounded down. -/
theorem toNat_wordAddr (addr : Word) : (wordAddr addr).toNat = addr.toNat / 4 * 4 := by
  have wide := addr.isLt
  rw [wordAddr, byteOf_eq, BitVec.toNat_sub, BitVec.toNat_ofNat]
  omega

/-- The word that is in memory at a place. -/
def wordIn (memory : MainMemory) (start : Nat) : Word :=
  BitVec.ofNat 32 (leNat (memory.slice start 4))

/-- Its bytes are those of the memory. -/
theorem lane_wordIn (memory : MainMemory) (start : Nat) {q : Nat} (inside : q < 4) :
    lane (wordIn memory start) q = memory (start + q) := by
  rw [wordIn, lane_leNat (MainMemory.length_slice memory start 4) inside,
    MainMemory.getD_slice memory start inside]

variable {machine : Machine}

/-- The word that an address is in lies in the same page. -/
theorem inFrame_wordAddr {addr : Word} {page : Nat} {writing : Bool}
    (found : machine.kernel.InFrame (addr.toNat / pageSize) page writing) :
    machine.kernel.InFrame ((wordAddr addr).toNat / pageSize) page writing := by
  have same : (wordAddr addr).toNat / pageSize = addr.toNat / pageSize := by
    rw [toNat_wordAddr]
    simp only [pageSize]
    omega
  rw [same]
  exact found

/-- An access to a page in a frame finds its place. -/
theorem locate_inFrame (now : Int) {addr : Word} {page : Nat} {writing : Bool}
    (found : machine.kernel.InFrame (addr.toNat / pageSize) page writing) :
    ∃ kernel, machine.locate now (wordAddr addr) 4 writing =
        some (.ok (VmKernel.place page (wordAddr addr)), { machine with kernel }) ∧
      kernel.mainMemory = machine.kernel.mainMemory ∧ machine.kernel.SameFrames kernel := by
  have aligned : (wordAddr addr).toNat % 4 = 0 := by
    rw [toNat_wordAddr]
    exact Nat.mul_mod_left _ _
  obtain ⟨kernel, translated, memory, same⟩ :=
    VmKernel.translate_inFrame (.inr (.inr rfl)) aligned (inFrame_wordAddr found)
  refine ⟨kernel, ?_, memory, same⟩
  rw [locate, translated]
  simp

/-- The word around an address is read. -/
theorem reading_inFrame (now : Int) {addr : Word} {page : Nat}
    (found : machine.kernel.InFrame (addr.toNat / pageSize) page false) :
    ∃ kernel, (∀ rest, machine.reading now (wordAddr addr) 4 rest =
        rest (wordIn machine.kernel.mainMemory (VmKernel.place page (wordAddr addr)))
          { machine with kernel }) ∧
      kernel.mainMemory = machine.kernel.mainMemory ∧ machine.kernel.SameFrames kernel := by
  obtain ⟨kernel, located, memory, same⟩ := machine.locate_inFrame now found
  refine ⟨kernel, fun rest => ?_, memory, same⟩
  -- The place in memory is that of the word, and memory has not changed.
  have value : VmKernel.valueOf (kernel.mainMemory.slice (VmKernel.place page (wordAddr addr)) 4) =
      some (wordIn machine.kernel.mainMemory (VmKernel.place page (wordAddr addr))).toInt := by
    rw [memory]
    rfl
  simp only [reading, readMem, located, Option.bind_eq_bind, Option.bind_some, value,
    BitVec.ofInt_toInt]
  rfl

/-- The word around an address is written. -/
theorem writing_inFrame (now : Int) {addr : Word} {page : Nat} (value pcAfter : Word)
    (found : machine.kernel.InFrame (addr.toNat / pageSize) page true) :
    ∃ kernel, machine.writing now (wordAddr addr) 4 value pcAfter =
        Machine.done { machine with kernel } pcAfter ∧
      kernel.mainMemory = machine.kernel.mainMemory.store (VmKernel.place page (wordAddr addr))
        (leBytes 4 value.toNat) ∧ machine.kernel.SameFrames kernel := by
  -- The place is found for a write.
  obtain ⟨kernel, located, memory, same⟩ := machine.locate_inFrame now found
  refine ⟨{ kernel with
    mainMemory := kernel.mainMemory.store (VmKernel.place page (wordAddr addr))
      (leBytes 4 value.toNat) }, ?_, ?_, ?_⟩
  · simp [writing, writeMem, located]
  · rw [memory]
  · -- The pages are where they were, since only bytes have changed.
    intro vpn other mode small held
    have moved := same vpn other mode small held
    exact ⟨moved.cached, moved.inTable, moved.held, moved.inMemory⟩

end Machine

/-- The two instructions of an unaligned access. -/
inductive Side
  -- The instruction for the low bytes, at the address of the first one.
  | right
  -- The instruction for the high bytes, at the address of the last one.
  | left

namespace Side

/-- The other instruction of the two. -/
def other : Side → Side
  | right => left
  | left => right

/-- The one that loads. -/
def loads : Side → OpCode
  | right => .lwr
  | left => .lwl

/-- The one that stores. -/
def stores : Side → OpCode
  | right => .swr
  | left => .swl

/-- The address that it is given, of the four bytes at an address. -/
def addr : Side → Word → Word
  | right, a => a
  | left, a => a + 3

/-- What it loads, from the word in memory and the one in the register. -/
def loaded : Side → Word → Word → Word → Word
  | right => Machine.loadRight
  | left => Machine.loadLeft

/-- What it stores, from the word in memory and the one in the register. -/
def stored : Side → Word → Word → Word → Word
  | right => Machine.storeRight
  | left => Machine.storeLeft

/-- The bytes that are its business, of the four at an address. -/
def Covers (a : Word) : Side → Nat → Prop
  | right, i => i + a.toNat % 4 ≤ 3
  | left, i => 3 ≤ i + (a + 3).toNat % 4

/-- Where it has them, in the aligned word around its own address. -/
def within (a : Word) : Side → Nat → Nat
  | right, i => i + a.toNat % 4
  | left, i => i + (a + 3).toNat % 4 - 3

/-- The four cases of a load to the right are one merge. -/
theorem loadRight_eq {k : Nat} (few : k < 4) (value old : Word) :
    Machine.loadRight (BitVec.ofNat 32 k) value old = mergeHigh k value old := by
  interval_cases k
  on_goal 1 => exact (mergeHigh_zero value old).symm
  all_goals simp [Machine.loadRight, mergeHigh]

/-- So are those of a load to the left, -/
theorem loadLeft_eq {k : Nat} (few : k < 4) (value old : Word) :
    Machine.loadLeft (BitVec.ofNat 32 k) value old = mergeLow (3 - k) value old := by
  interval_cases k
  on_goal 4 => exact (mergeLow_zero value old).symm
  all_goals simp [Machine.loadLeft, mergeLow]

/-- of a store to the right, -/
theorem storeRight_eq {k : Nat} (few : k < 4) (value held : Word) :
    Machine.storeRight (BitVec.ofNat 32 k) value held = mergeLow k held value := by
  interval_cases k
  on_goal 1 => exact (mergeLow_zero held value).symm
  all_goals simp [Machine.storeRight, mergeLow]

/-- and of a store to the left. -/
theorem storeLeft_eq {k : Nat} (few : k < 4) (value held : Word) :
    Machine.storeLeft (BitVec.ofNat 32 k) value held = mergeHigh (3 - k) held value := by
  interval_cases k
  on_goal 4 => exact (mergeHigh_zero held value).symm
  all_goals simp [Machine.storeLeft, mergeHigh]

/-- Each byte is the business of one of the two instructions at least. -/
theorem covers_or (a : Word) (side : Side) {i : Nat} (inside : i < 4) :
    side.Covers a i ∨ side.other.Covers a i := by
  have three : (3 : Word).toNat = 3 := rfl
  have next : (a + 3).toNat % 4 = (a.toNat + 3) % 4 := by
    rw [BitVec.toNat_add, three]
    omega
  cases side
  all_goals
    simp only [other, Covers, next]
    omega

/-- A byte that an instruction covers is in the word around its address. -/
theorem within_lt {a : Word} {side : Side} {i : Nat} (inside : i < 4) (covers : side.Covers a i) :
    side.within a i < 4 := by
  cases side
  all_goals
    simp only [Covers] at covers
    simp only [within]
    omega

/-- A load takes the bytes that it covers from memory, and keeps the others. -/
theorem lane_loaded (a : Word) (side : Side) (value old : Word) {i : Nat} (inside : i < 4) :
    (side.Covers a i → lane (side.loaded (Machine.byteOf (side.addr a)) value old) i =
      lane value (side.within a i)) ∧
    (¬ side.Covers a i → lane (side.loaded (Machine.byteOf (side.addr a)) value old) i =
      lane old i) := by
  have few : (side.addr a).toNat % 4 < 4 := Nat.mod_lt _ (by decide)
  rw [Machine.byteOf_eq]
  cases side with
  | right =>
    -- A right half goes into the high bytes.
    simp only [loaded, addr, Covers, within] at few ⊢
    rw [loadRight_eq few, lane_mergeHigh _ _ _ inside]
    exact ⟨fun covers => if_pos covers, fun left => if_neg left⟩
  | left =>
    -- A left half goes into the low ones.
    simp only [loaded, addr, Covers, within] at few ⊢
    rw [loadLeft_eq few, lane_mergeLow _ _ _ inside]
    refine ⟨fun covers => ?_, fun left => if_neg (by omega)⟩
    rw [if_pos (by omega)]
    congr 1
    omega

/-- A store puts the bytes that it covers into memory, -/
theorem lane_stored (a : Word) (side : Side) (value held : Word) {i : Nat} (inside : i < 4)
    (covers : side.Covers a i) :
    lane (side.stored (Machine.byteOf (side.addr a)) value held) (side.within a i) =
      lane held i := by
  have few : (side.addr a).toNat % 4 < 4 := Nat.mod_lt _ (by decide)
  have there := within_lt inside covers
  rw [Machine.byteOf_eq]
  cases side with
  | right =>
    -- What is stored from the right comes from the high bytes.
    simp only [stored, addr, Covers, within] at few covers there ⊢
    rw [storeRight_eq few, lane_mergeLow _ _ _ there, if_pos (by omega), Nat.add_sub_cancel]
  | left =>
    -- What is stored from the left comes from the low ones.
    simp only [stored, addr, Covers, within] at few covers there ⊢
    rw [storeLeft_eq few, lane_mergeHigh _ _ _ there, if_pos (by omega)]
    congr 1
    omega

/-- and keeps the others. -/
theorem lane_stored_other (a : Word) (side : Side) (value held : Word) {q : Nat} (inside : q < 4)
    (other : ∀ i < 4, side.Covers a i → side.within a i ≠ q) :
    lane (side.stored (Machine.byteOf (side.addr a)) value held) q = lane value q := by
  have few : (side.addr a).toNat % 4 < 4 := Nat.mod_lt _ (by decide)
  rw [Machine.byteOf_eq]
  -- A byte outside the side keeps what the word in memory held.
  cases side with
  | right =>
    simp only [stored, addr, Covers, within] at few other ⊢
    rw [storeRight_eq few, lane_mergeLow _ _ _ inside, if_neg]
    -- The byte would belong to one that is covered.
    intro covers
    exact other (q - a.toNat % 4) (by omega) (by omega) (by omega)
  | left =>
    simp only [stored, addr, Covers, within] at few other ⊢
    rw [storeLeft_eq few, lane_mergeHigh _ _ _ inside, if_neg]
    intro covers
    exact other (q + 3 - (a + 3).toNat % 4) (by omega) (by omega) (by omega)

/-- The places of the four bytes at an address, when the pages are in these frames. -/
def places (frame : Nat → Nat) (a : Word) (i : Nat) : Nat :=
  VmKernel.place (frame ((a + BitVec.ofNat 32 i).toNat / pageSize)) (a + BitVec.ofNat 32 i)

/-- The bytes that an instruction covers lie in its word. -/
theorem places_within (frame : Nat → Nat) {a : Word} {side : Side} {i : Nat} (inside : i < 4)
    (covers : side.Covers a i) :
    places frame a i =
      VmKernel.place (frame ((side.addr a).toNat / pageSize)) (Machine.wordAddr (side.addr a)) +
        side.within a i := by
  have wide := a.isLt
  have three : (3 : Word).toNat = 3 := rfl
  -- The address of a byte is taken modulo the size of memory.
  have moved : (a + BitVec.ofNat 32 i).toNat = (a.toNat + i) % 2 ^ 32 := by
    rw [BitVec.toNat_add, BitVec.toNat_ofNat, Nat.mod_eq_of_lt (by omega : i < 2 ^ 32)]
  have last : (a + 3).toNat = (a.toNat + 3) % 2 ^ 32 := by rw [BitVec.toNat_add, three]
  -- All bytes that are covered are in the page of the address of the instruction.
  have page : (a.toNat + i) % 2 ^ 32 / pageSize = (side.addr a).toNat / pageSize := by
    cases side
    all_goals
      simp only [Covers, addr, pageSize, last] at covers ⊢
      omega
  simp only [places, VmKernel.place, Machine.toNat_wordAddr, moved, page]
  -- Within the page the byte is where the side has it.
  cases side
  all_goals
    simp only [Covers, within, addr, pageSize, last] at covers ⊢
    omega

/-- The bytes that a load takes from memory are those at their places. -/
theorem lane_loaded_places (memory : MainMemory) (frame : Nat → Nat) {a : Word} {side : Side}
    (old : Word) {i : Nat} (inside : i < 4) (covers : side.Covers a i) :
    lane (side.loaded (Machine.byteOf (side.addr a)) (Machine.wordIn memory
      (VmKernel.place (frame ((side.addr a).toNat / pageSize))
        (Machine.wordAddr (side.addr a)))) old) i = memory (places frame a i) := by
  -- The byte is one of the word in memory, which is where the address is translated to.
  rw [(lane_loaded a side _ old inside).1 covers,
    Machine.lane_wordIn memory _ (within_lt inside covers), places_within frame inside covers]

/-- The four bytes have different places, even if both pages are in one frame. -/
theorem places_injective (frame : Nat → Nat) (a : Word) {i j : Nat} (first : i < 4) (second : j < 4)
    (same : places frame a i = places frame a j) : i = j := by
  have wide := a.isLt
  have moved : ∀ i < 4, (a + BitVec.ofNat 32 i).toNat = (a.toNat + i) % 2 ^ 32 := by
    intro i few
    rw [BitVec.toNat_add, BitVec.toNat_ofNat, Nat.mod_eq_of_lt (by omega : i < 2 ^ 32)]
  -- Within a page the four bytes have different offsets.
  have offsets := congrArg (· % pageSize) same
  simp only [places, VmKernel.place, pageSize, moved i first, moved j second] at offsets
  omega

/-- A store puts the bytes that it covers at their places, and changes no other byte. -/
theorem store_places (memory : MainMemory) (frame : Nat → Nat) (a : Word) (side : Side)
    (held : Word) {start : Nat}
    (starts : start = VmKernel.place (frame ((side.addr a).toNat / pageSize))
      (Machine.wordAddr (side.addr a))) {after : MainMemory}
    (stores : after = memory.store start (leBytes 4 (side.stored (Machine.byteOf (side.addr a))
      (Machine.wordIn memory start) held).toNat)) :
    (∀ i < 4, side.Covers a i → after (places frame a i) = lane held i) ∧
      ∀ x, (∀ i < 4, side.Covers a i → x ≠ places frame a i) → after x = memory x := by
  constructor
  · -- A byte that is covered is that of the register.
    intro i inside covers
    have there := within_lt inside covers
    rw [stores, places_within frame inside covers, ← starts,
      MainMemory.store_inside memory (by simpa using there), getD_leBytes_lane _ there,
      lane_stored a side _ held inside covers]
  · intro x apart
    by_cases inside : start ≤ x ∧ x < start + 4
    · -- The word around the address is written whole, but its other bytes are as they were.
      obtain ⟨q, rfl⟩ := Nat.exists_eq_add_of_le inside.1
      have there : q < 4 := by omega
      have other : ∀ i < 4, side.Covers a i → side.within a i ≠ q := by
        intro i few covers same
        refine apart i few covers ?_
        rw [places_within frame few covers, ← starts, same]
      rw [stores, MainMemory.store_inside memory (by simpa using there), getD_leBytes_lane _ there,
        lane_stored_other a side _ held there other, Machine.lane_wordIn memory start there]
    · -- Bytes outside the word are not written.
      rw [stores]
      apply MainMemory.store_outside
      rw [length_leBytes]
      omega

end Side

namespace Machine

variable {machine : Machine}

/-- An instruction once it has been fetched, together with the handler of an exception. -/
def obey (machine : Machine) (now : Int) (raw : Word) : Option Machine := do
  match ← machine.execute now (.decode raw) with
  | .finished machine pcAfter nextLoadReg nextLoadValue =>
    return (machine.delayedLoad nextLoadReg nextLoadValue).advance pcAfter
  | .trapped which machine => machine.exceptionHandler now which

/-- One instruction is fetched and obeyed, unless the fetch raises an exception. -/
theorem oneInstruction_eq (machine : Machine) (now : Int) :
    machine.oneInstruction now =
      (machine.readMem now (machine.registers pcReg) 4).bind fun fetched =>
        match fetched with
        | (.ok raw, machine) => machine.obey now raw
        | (.error which, machine) => machine.exceptionHandler now which := by
  unfold oneInstruction fetchExecute reading
  cases machine.readMem now (machine.registers pcReg) 4 with
  | none => rfl
  | some fetched =>
    obtain ⟨result, machine⟩ := fetched
    cases result <;> rfl

/-- The instruction is this operation on this register, at this address, with another base. -/
structure At (machine : Machine) (raw : Word) (opCode : OpCode) (rt : Nat) (addr : Word) :
    Prop where
  operation : (Instruction.decode raw).opCode = opCode
  target : (Instruction.decode raw).rt = rt
  address : machine.registers (Instruction.decode raw).rs + (Instruction.decode raw).extra = addr
  base : (Instruction.decode raw).rs ≠ rt

/-- No load is pending, and register 0 holds 0. -/
structure Quiet (machine : Machine) : Prop where
  load : machine.registers loadReg = 0
  zero : machine.registers 0 = 0

/-- The general registers after an instruction that wrote none of them. -/
theorem registers_ended (machine : Machine) (reg : Nat) (value pcAfter : Word) {x : Nat}
    (general : x < numGPRegs) :
    ((machine.delayedLoad reg value).advance pcAfter).registers x =
      if x = 0 then 0
      else if x = (machine.registers loadReg).toNat then machine.registers loadValueReg
      else machine.registers x := by
  have apart : ∀ special ≥ pcReg, x ≠ special := fun special large =>
    Nat.ne_of_lt (Nat.lt_of_lt_of_le general (Nat.le_trans (by decide) large))
  simp only [advance, write_registers]
  rw [if_neg (apart nextPCReg (by decide)), if_neg (apart pcReg (Nat.le_refl _)),
    if_neg (apart prevPCReg (by decide)), delayedLoad_registers,
    if_neg (apart loadValueReg (by decide)), if_neg (apart loadReg (by decide))]

/-- The load that is pending then. -/
theorem pending_ended (machine : Machine) (reg : Nat) (value pcAfter : Word) :
    ((machine.delayedLoad reg value).advance pcAfter).registers loadReg = BitVec.ofNat 32 reg ∧
      ((machine.delayedLoad reg value).advance pcAfter).registers loadValueReg = value := by
  simp [advance, delayedLoad_registers]

/-- A quiet machine keeps its general registers. -/
theorem Quiet.registers_ended (quiet : machine.Quiet) (reg : Nat) (value pcAfter : Word) {x : Nat}
    (general : x < numGPRegs) :
    ((machine.delayedLoad reg value).advance pcAfter).registers x = machine.registers x := by
  rw [Machine.registers_ended machine reg value pcAfter general, quiet.load]
  -- Register 0 is cleared, and no other one is the target of a load.
  by_cases zero : x = 0
  · rw [if_pos zero, zero, quiet.zero]
  · have nothing : x ≠ (0 : Word).toNat := zero
    rw [if_neg zero, if_neg nothing]

/-- What an instruction leaves that writes no general register, and a load pending. -/
structure Ends (machine after : Machine) (kernel : VmKernel) (reg : Nat) (value : Word) :
    Prop where
  kernel : after.kernel = kernel
  registers : ∀ x < numGPRegs, after.registers x = machine.registers x
  load : after.registers loadReg = BitVec.ofNat 32 reg
  loaded : after.registers loadValueReg = value

/-- A quiet machine ends an instruction so. -/
theorem Quiet.ends (quiet : machine.Quiet) (kernel : VmKernel) (reg : Nat)
    (value pcAfter : Word) :
    machine.Ends ((Machine.delayedLoad { machine with kernel } reg value).advance pcAfter)
      kernel reg value := by
  have inner : Quiet { machine with kernel } := ⟨quiet.load, quiet.zero⟩
  have pending := pending_ended { machine with kernel } reg value pcAfter
  exact ⟨rfl, fun x general => inner.registers_ended reg value pcAfter general, pending.1,
    pending.2⟩

/-- A machine without a load pending is quiet then. -/
theorem Ends.quiet {after : Machine} {kernel : VmKernel} {value : Word} (quiet : machine.Quiet)
    (ends : machine.Ends after kernel 0 value) : after.Quiet :=
  ⟨ends.load, (ends.registers 0 (by decide)).trans quiet.zero⟩

/-- A load leaves its register pending, with some of the bytes from memory. -/
theorem obey_loads (now : Int) {raw : Word} {side : Side} {rt page : Nat} {a : Word}
    (here : machine.At raw side.loads rt (side.addr a))
    (found : machine.kernel.InFrame ((side.addr a).toNat / pageSize) page false) :
    ∃ kernel, machine.obey now raw =
        some ((Machine.delayedLoad { machine with kernel } rt
          (side.loaded (byteOf (side.addr a))
            (wordIn machine.kernel.mainMemory (VmKernel.place page (wordAddr (side.addr a))))
            (machine.merged rt))).advance (machine.registers nextPCReg + 4)) ∧
      kernel.mainMemory = machine.kernel.mainMemory ∧ machine.kernel.SameFrames kernel := by
  -- The word is found, wherever its page is.
  obtain ⟨kernel, read, memory, same⟩ := machine.reading_inFrame now found
  refine ⟨kernel, ?_, memory, same⟩
  have operation := here.operation
  -- Both instructions read the word and merge it in their own ways.
  cases side
  all_goals
    simp only [Side.loads] at operation
    simp only [obey, execute, operation, here.address, here.target]
    rw [← wordAddr, read]
    rfl

/-- A store puts some of the bytes of its register into memory. -/
theorem obey_stores (now : Int) {raw : Word} {side : Side} {rt page : Nat} {a : Word}
    (here : machine.At raw side.stores rt (side.addr a))
    (found : machine.kernel.InFrame ((side.addr a).toNat / pageSize) page true) :
    ∃ kernel, machine.obey now raw =
        some ((Machine.delayedLoad { machine with kernel } 0 0).advance
          (machine.registers nextPCReg + 4)) ∧
      kernel.mainMemory = machine.kernel.mainMemory.store
        (VmKernel.place page (wordAddr (side.addr a)))
        (leBytes 4 (side.stored (byteOf (side.addr a))
          (wordIn machine.kernel.mainMemory (VmKernel.place page (wordAddr (side.addr a))))
          (machine.registers rt)).toNat) ∧
      machine.kernel.SameFrames kernel := by
  -- The word is read first, and then written with the bytes that are stored.
  obtain ⟨middle, read, memory, same⟩ := machine.reading_inFrame now found.toRead
  have bounded : (side.addr a).toNat / pageSize < 2 ^ 32 :=
    Nat.lt_of_le_of_lt (Nat.div_le_self _ _) (side.addr a).isLt
  -- The place is found again after the read, since pages have not moved.
  obtain ⟨kernel, wrote, memory', same'⟩ := @Machine.writing_inFrame
    { machine with kernel := middle } now (side.addr a) page
    (side.stored (byteOf (side.addr a))
      (wordIn machine.kernel.mainMemory (VmKernel.place page (wordAddr (side.addr a))))
      (machine.registers rt))
    (machine.registers nextPCReg + 4) (same _ _ _ bounded found)
  refine ⟨kernel, ?_, by rw [memory', memory], fun vpn page mode small held =>
    same' vpn page mode small (same vpn page mode small held)⟩
  have operation := here.operation
  -- Both instructions go the same way, each with its own merge.
  cases side
  all_goals
    simp only [Side.stores] at operation
    simp only [obey, execute, merging, operation, here.address, here.target]
    rw [← wordAddr, read]
    simp only [Side.stored] at wrote
    rw [wrote]
    rfl

/-- The pages of the four bytes at an address are in these frames. -/
def Resides (machine : Machine) (frame : Nat → Nat) (a : Word) (writing : Bool) : Prop :=
  ∀ i < 4, machine.kernel.InFrame ((a + BitVec.ofNat 32 i).toNat / pageSize)
    (frame ((a + BitVec.ofNat 32 i).toNat / pageSize)) writing

/-- So is the page of the address that either instruction is given. -/
theorem Resides.side {frame : Nat → Nat} {a : Word} {writing : Bool}
    (resides : machine.Resides frame a writing) (side : Side) :
    machine.kernel.InFrame ((side.addr a).toNat / pageSize)
      (frame ((side.addr a).toNat / pageSize)) writing := by
  -- The address of the one instruction is that of the first byte, of the other that of the last.
  cases side with
  | right =>
    have first := resides 0 (by decide)
    rw [show a + BitVec.ofNat 32 0 = a from BitVec.add_zero a] at first
    exact first
  | left => exact resides 3 (by decide)

/-- They stay there as long as no page moves. -/
theorem Resides.kept {frame : Nat → Nat} {a : Word} {writing : Bool} {after : Machine}
    (resides : machine.Resides frame a writing) (same : machine.kernel.SameFrames after.kernel) :
    after.Resides frame a writing := by
  intro i few
  have bounded : (a + BitVec.ofNat 32 i).toNat / pageSize < 2 ^ 32 :=
    Nat.lt_of_le_of_lt (Nat.div_le_self _ _) (a + BitVec.ofNat 32 i).isLt
  exact same _ _ _ bounded (resides i few)

/-- The instruction is the same one on a machine whose general registers have not changed. -/
theorem At.kept {raw addr : Word} {opCode : OpCode} {rt : Nat} {after : Machine}
    (here : machine.At raw opCode rt addr)
    (same : ∀ x < numGPRegs, after.registers x = machine.registers x) :
    after.At raw opCode rt addr :=
  ⟨here.operation, here.target, by
    rw [same _ (Instruction.decode_small raw).1, here.address], here.base⟩

/-- The register of an instruction is a general one. -/
theorem At.small {raw addr : Word} {opCode : OpCode} {rt : Nat}
    (here : machine.At raw opCode rt addr) : rt < numGPRegs := by
  rw [← here.target]
  exact (Instruction.decode_small raw).2.1

/-- The little-endian word of the four bytes at an address. -/
def wordAtPlaces (memory : MainMemory) (frame : Nat → Nat) (a : Word) : Word :=
  BitVec.ofNat 32 (leNat ((List.range 4).map fun i => memory (Side.places frame a i)))

/-- Its bytes are those at the places. -/
theorem lane_wordAtPlaces (memory : MainMemory) (frame : Nat → Nat) (a : Word) {i : Nat}
    (inside : i < 4) : lane (wordAtPlaces memory frame a) i = memory (Side.places frame a i) := by
  rw [wordAtPlaces, lane_leNat (by simp) inside]
  simp [List.getD_eq_getElem?_getD, inside]

/-- Both instructions that load, in either order, load the word of the four bytes. -/
theorem loads_word {frame : Nat → Nat} {a : Word} {rt : Nat} {first second : Word} (now later : Int)
    (side : Side) (quiet : machine.Quiet) (visible : rt ≠ 0)
    (here : machine.At first side.loads rt (side.addr a))
    (there : machine.At second side.other.loads rt (side.other.addr a))
    (resides : machine.Resides frame a false) :
    ∃ after, (machine.obey now first).bind (·.obey later second) = some after ∧
      (after.delayedLoad 0 0).registers rt =
        wordAtPlaces machine.kernel.mainMemory frame a ∧
      after.kernel.mainMemory = machine.kernel.mainMemory := by
  have small := here.small
  -- The first instruction leaves its load pending.
  obtain ⟨kernel, obeyed, memory, same⟩ := obey_loads now here (resides.side side)
  have lanes := fun i inside covers =>
    @Side.lane_loaded_places machine.kernel.mainMemory frame a side (machine.merged rt) i inside covers
  generalize side.loaded (byteOf (side.addr a)) (wordIn machine.kernel.mainMemory
    (VmKernel.place (frame ((side.addr a).toNat / pageSize)) (wordAddr (side.addr a))))
    (machine.merged rt) = loaded at obeyed lanes
  -- The general registers, and with them the second address, are as they were.
  have ends := quiet.ends kernel rt loaded (machine.registers nextPCReg + 4)
  generalize (Machine.delayedLoad { machine with kernel } rt loaded).advance
    (machine.registers nextPCReg + 4) = middle at obeyed ends
  -- The second one finds the page where it was, and the registers as well.
  obtain ⟨kernel', obeyed', memory', -⟩ := obey_loads later (there.kept ends.registers)
    ((resides.kept (ends.kernel ▸ same)).side side.other)
  -- What was loaded first is forwarded to the second instruction.
  have goal : rt = (BitVec.ofNat 32 rt).toNat := by
    rw [BitVec.toNat_ofNat, Nat.mod_eq_of_lt (Nat.lt_trans small (by decide))]
  have forwarded : middle.merged rt = loaded := by
    rw [merged, ends.load, if_pos goal.symm, ends.loaded]
  -- It merges its own bytes into what was forwarded.
  rw [forwarded, ends.kernel, memory] at obeyed'
  refine ⟨_, by rw [obeyed]; exact obeyed', ?_, by rw [← memory, ← ends.kernel, ← memory']; rfl⟩
  -- At the end its load is the pending one, of the same register.
  have final := pending_ended { middle with kernel := kernel' } rt
    (side.other.loaded (byteOf (side.other.addr a)) (wordIn machine.kernel.mainMemory
      (VmKernel.place (frame ((side.other.addr a).toNat / pageSize))
        (wordAddr (side.other.addr a)))) loaded) (middle.registers nextPCReg + 4)
  -- The register is none of the special ones.
  have apart : ∀ special ≥ pcReg, rt ≠ special := fun special large =>
    Nat.ne_of_lt (Nat.lt_of_lt_of_le small (Nat.le_trans (by decide) large))
  rw [delayedLoad_registers, if_neg visible, if_neg (apart loadValueReg (by decide)),
    if_neg (apart loadReg (by decide)), final.1, if_pos goal, final.2]
  -- Each byte comes from the one instruction or the other.
  apply eq_of_lanes
  intro i inside
  rw [lane_wordAtPlaces _ _ _ inside]
  by_cases covers : side.other.Covers a i
  · -- A byte that the second instruction covers is its own.
    exact Side.lane_loaded_places _ frame loaded inside covers
  · -- The others are those of the first one.
    rw [(Side.lane_loaded a side.other _ loaded inside).2 covers]
    exact lanes i inside ((Side.covers_or a side inside).resolve_right covers)

/-- Both instructions that store, in either order, store the four bytes and nothing else. -/
theorem stores_word {frame : Nat → Nat} {a : Word} {rt : Nat} {first second : Word}
    (now later : Int) (side : Side) (quiet : machine.Quiet)
    (here : machine.At first side.stores rt (side.addr a))
    (there : machine.At second side.other.stores rt (side.other.addr a))
    (resides : machine.Resides frame a true) :
    ∃ after : Machine, (machine.obey now first).bind (·.obey later second) = some after ∧
      (∀ i < 4, after.kernel.mainMemory (Side.places frame a i) =
        lane (machine.registers rt) i) ∧
      (∀ x, (∀ i < 4, x ≠ Side.places frame a i) →
        after.kernel.mainMemory x = machine.kernel.mainMemory x) ∧
      after.Quiet ∧ (∀ x < numGPRegs, after.registers x = machine.registers x) ∧
      machine.kernel.SameFrames after.kernel := by
  -- The first instruction writes its bytes.
  obtain ⟨kernel, obeyed, memory, same⟩ := obey_stores now here (resides.side side)
  have ends := quiet.ends kernel 0 0 (machine.registers nextPCReg + 4)
  generalize (Machine.delayedLoad { machine with kernel } 0 0).advance
    (machine.registers nextPCReg + 4) = middle at obeyed ends
  -- The second one finds the registers, and the page where it was.
  obtain ⟨kernel', obeyed', memory', same'⟩ := obey_stores later (there.kept ends.registers)
    ((resides.kept (ends.kernel ▸ same)).side side.other)
  rw [ends.kernel, ends.registers rt here.small] at memory'
  -- Each of the two has stored what it covers, and nothing else.
  obtain ⟨stored, frames⟩ := Side.store_places _ frame a side _ rfl memory
  obtain ⟨stored', frames'⟩ := Side.store_places _ frame a side.other _ rfl memory'
  have ends' := (ends.quiet quiet).ends kernel' 0 0 (middle.registers nextPCReg + 4)
  refine ⟨_, by rw [obeyed]; exact obeyed', fun i inside => ?_, fun x apart => ?_,
    ends'.quiet (ends.quiet quiet),
    fun x general => (ends'.registers x general).trans (ends.registers x general),
    fun vpn page mode small held => ?_⟩
  · -- What the second instruction does not cover, the first one has stored.
    show kernel'.mainMemory _ = _
    by_cases covers : side.other.Covers a i
    · exact stored' i inside covers
    · have first := (Side.covers_or a side inside).resolve_right covers
      rw [frames' _ fun j few covered same => covers
        (Side.places_injective frame a inside few same ▸ covered)]
      exact stored i inside first
  · -- Bytes apart from the four are written by neither.
    show kernel'.mainMemory x = _
    rw [frames' x fun i few _ => apart i few, frames x fun i few _ => apart i few]
  · -- The pages have stayed through both.
    rw [ends.kernel] at same'
    exact same' vpn page mode small (same vpn page mode small held)

/--
Words can be accessed at any address whose bytes are in memory, in either order of instructions.

What is loaded, whatever the register held, is the little-endian word of the four bytes; what is
stored is the four bytes of the register, and nothing else; and a load returns what was stored.
-/
theorem unaligned_word (machine : Machine) (frame : Nat → Nat) (a : Word) (quiet : machine.Quiet) :
    (∀ (side : Side) (first second : Word) (rt : Nat) (now later : Int), rt ≠ 0 →
      machine.At first side.loads rt (side.addr a) →
      machine.At second side.other.loads rt (side.other.addr a) →
      machine.Resides frame a false →
      ∃ after, (machine.obey now first).bind (·.obey later second) = some after ∧
        (after.delayedLoad 0 0).registers rt = wordAtPlaces machine.kernel.mainMemory frame a) ∧
    (∀ (side : Side) (first second : Word) (rt : Nat) (now later : Int), rt ≠ 0 →
      machine.At first side.stores rt (side.addr a) →
      machine.At second side.other.stores rt (side.other.addr a) →
      machine.Resides frame a true →
      ∃ after : Machine, (machine.obey now first).bind (·.obey later second) = some after ∧
        (∀ i < 4, after.kernel.mainMemory (Side.places frame a i) =
          lane (machine.registers rt) i) ∧
        ∀ x, (∀ i < 4, x ≠ Side.places frame a i) →
          after.kernel.mainMemory x = machine.kernel.mainMemory x) ∧
    ∀ (side order : Side) (first second third fourth : Word) (rt target : Nat)
      (now later again last : Int), rt ≠ 0 → target ≠ 0 →
      machine.At first side.stores rt (side.addr a) →
      machine.At second side.other.stores rt (side.other.addr a) →
      machine.At third order.loads target (order.addr a) →
      machine.At fourth order.other.loads target (order.other.addr a) →
      machine.Resides frame a true →
      ∃ stored after : Machine, (machine.obey now first).bind (·.obey later second) = some stored ∧
        (stored.obey again third).bind (·.obey last fourth) = some after ∧
        (after.delayedLoad 0 0).registers target = machine.registers rt := by
  refine ⟨?_, ?_, ?_⟩
  · -- A load of a word is a pair of loads.
    intro side first second rt now later visible here there resides
    obtain ⟨after, obeyed, loaded, -⟩ := loads_word now later side quiet visible here there resides
    exact ⟨after, obeyed, loaded⟩
  · -- A store of a word is a pair of stores.
    intro side first second rt now later _ here there resides
    obtain ⟨after, obeyed, stored, frames, -⟩ := stores_word now later side quiet here there resides
    exact ⟨after, obeyed, stored, frames⟩
  · intro side order first second third fourth rt target now later again last _ visible here there
      before behind resides
    obtain ⟨stored, obeyed, bytes, -, still, kept, same⟩ :=
      stores_word now later side quiet here there resides
    -- What may be written may also be read.
    have readable : machine.Resides frame a false := fun i few => (resides i few).toRead
    obtain ⟨after, obeyed', loaded, -⟩ := loads_word again last order still visible
      (before.kept kept) (behind.kept kept) (readable.kept same)
    refine ⟨stored, after, obeyed, obeyed', ?_⟩
    -- The word is known by its bytes, which are those that were stored.
    rw [loaded]
    apply eq_of_lanes
    intro i inside
    rw [lane_wordAtPlaces _ _ _ inside, bytes i inside]

/-- A word at address 2, which is no multiple of 4: loaded, stored, and stored and loaded back. -/
theorem unaligned_word_two :
    let machine := (residentMachine [1, 2, 3, 4, 5, 6, 7, 8]).write 3 0xaabbccdd
    (∃ after, (machine.obey 1 0x98410002).bind (·.obey 2 0x88410005) = some after ∧
      (after.delayedLoad 0 0).registers 1 = 0x06050403) ∧
    (∃ after : Machine, (machine.obey 1 0xa8430005).bind (·.obey 2 0xb8430002) = some after ∧
      after.kernel.mainMemory 2 = 0xdd ∧ after.kernel.mainMemory 1 = 2) ∧
    ∃ stored after : Machine, (machine.obey 1 0xa8430005).bind (·.obey 2 0xb8430002) = some stored ∧
      (stored.obey 3 0x98410002).bind (·.obey 4 0x88410005) = some after ∧
      (after.delayedLoad 0 0).registers 1 = 0xaabbccdd := by
  intro machine
  have resides : ∀ writing, machine.Resides (fun vpn => vpn) 2 writing := by
    intro writing i few
    -- The only address space has the page in its own frame.
    refine ⟨fun way valid => ?_, ?_, ⟨0, _, rfl, rfl, rfl, rfl, rfl⟩, ?_⟩
    · cases valid
    · interval_cases i <;> decide
    · interval_cases i <;> decide
  obtain ⟨loads, stores, both⟩ := unaligned_word machine (fun vpn => vpn) 2 ⟨rfl, rfl⟩
  -- The four instructions, each on its register and at its address.
  have right : machine.At 0x98410002 Side.right.loads 1 (Side.right.addr 2) := by
    exact ⟨by decide, by decide, by decide, by decide⟩
  have left : machine.At 0x88410005 Side.left.loads 1 (Side.left.addr 2) := by
    exact ⟨by decide, by decide, by decide, by decide⟩
  have storeRight : machine.At 0xb8430002 Side.right.stores 3 (Side.right.addr 2) := by
    exact ⟨by decide, by decide, by decide, by decide⟩
  have storeLeft : machine.At 0xa8430005 Side.left.stores 3 (Side.left.addr 2) := by
    exact ⟨by decide, by decide, by decide, by decide⟩
  -- These bytes are in memory.
  have word : wordAtPlaces machine.kernel.mainMemory (fun vpn => vpn) 2 = 0x06050403 := by
    decide +kernel
  have first : Side.places (fun vpn => vpn) 2 0 = 2 := by decide
  have apart : ∀ i < 4, 1 ≠ Side.places (fun vpn => vpn) 2 i := by decide
  refine ⟨?_, ?_, ?_⟩
  · -- The word of the four bytes is loaded.
    rw [← word]
    exact loads .right _ _ 1 1 2 (by decide) right left (resides false)
  · -- The byte at 1 is none of the four.
    obtain ⟨after, obeyed, bytes, others⟩ :=
      stores .left _ _ 3 1 2 (by decide) storeLeft storeRight (resides true)
    refine ⟨after, obeyed, ?_, others 1 apart⟩
    rw [← first, bytes 0 (by decide)]
    decide
  · -- The pairs are put together.
    exact both .left .right _ _ _ _ 3 1 1 2 3 4 (by decide) (by decide) storeLeft storeRight right
      left (resides true)

end Machine

end Nachos
