import Nachos.Proofs.Lib.Bitmap
import Nachos.Theory.Pool
import Nachos.Theory.Run

/-! A bitmap is a set of bit numbers, whatever its size is and whatever is done to it. -/

namespace Nachos

/-- An event whose argument is the number of a bit. -/
def BitmapEvent.InRange (numItems : Int) : BitmapEvent → Prop
  | .mark which | .clear which => 0 ≤ which ∧ which < numItems
  | .findAndSet => True

instance (numItems : Int) : ∀ event : BitmapEvent, Decidable (event.InRange numItems)
  | .mark _ | .clear _ => inferInstanceAs (Decidable (_ ∧ _))
  | .findAndSet => .isTrue trivial

/-- The numbers of all bits. -/
def BitNumbers.all (numItems : Int) : Finset Int :=
  (Finset.range numItems.toNat).image fun i : Nat => (i : Int)

/-- They are those from 0 up to the size. -/
theorem BitNumbers.mem_all {numItems which : Int} :
    which ∈ all numItems ↔ 0 ≤ which ∧ which < numItems := by
  unfold all
  rw [Finset.mem_image]
  constructor
  · rintro ⟨i, below, rfl⟩
    have inside := Finset.mem_range.mp below
    omega
  · rintro ⟨positive, below⟩
    exact ⟨which.toNat, Finset.mem_range.mpr (by omega), by omega⟩

/-- There are as many as the size says. -/
theorem BitNumbers.card_all (numItems : Int) : (all numItems).card = numItems.toNat := by
  -- No two natural numbers are the same int.
  unfold all
  rw [Finset.card_image_of_injective _ fun i j same => Int.ofNat_inj.mp same, Finset.card_range]

/-- What the calls are for: the bit numbers that are taken, and the least one that is free. -/
def BitNumbers.step (state : Pool Int × List Int) : BitmapEvent → Option (Pool Int × List Int)
  | .mark which => (state.1.take which).map fun pool => (pool, state.2)
  | .clear which => (state.1.release which).map fun pool => (pool, state.2)
  | .findAndSet =>
    match state.1.least with
    | some least => (state.1.take least).map fun pool => (pool, state.2 ++ [least])
    | none => some (state.1, state.2 ++ [-1])

namespace Bitmap

variable {bitmap : Bitmap} {numItems : Int} {pool : Pool Int} {which : Int}

/-- The bits that are set are those of the numbers that are taken, out of so many. -/
structure Represents (bitmap : Bitmap) (numItems : Int) (pool : Pool Int) : Prop where
  size : (bitmap.numBits : Int) = numItems
  names : pool.names = BitNumbers.all numItems
  bit : ∀ i < bitmap.numBits, bitmap.bit i = decide ((i : Int) ∈ pool.taken)

/-- The names of the pool are the bit numbers. -/
theorem Represents.known (represents : Represents bitmap numItems pool) :
    which ∈ pool.names ↔ 0 ≤ which ∧ which < numItems := by
  rw [represents.names, BitNumbers.mem_all]

/-- Each name of the pool is the number of a bit. -/
theorem Represents.number (represents : Represents bitmap numItems pool)
    (known : which ∈ pool.names) : ∃ i : Nat, which = i ∧ i < bitmap.numBits := by
  -- The names are the numbers from 0 up to the size.
  obtain ⟨positive, below⟩ := represents.known.mp known
  obtain ⟨i, rfl⟩ := Int.eq_ofNat_of_zero_le positive
  exact ⟨i, rfl, Int.ofNat_lt.mp (represents.size ▸ below)⟩

/-- The number of each bit is a name of the pool. -/
theorem Represents.known_of_lt (represents : Represents bitmap numItems pool) {i : Nat}
    (below : i < bitmap.numBits) : (i : Int) ∈ pool.names :=
  represents.known.mpr ⟨Int.natCast_nonneg i, represents.size ▸ Int.ofNat_lt.mpr below⟩

/-- `Test` says whether the number is taken. -/
theorem Represents.test (represents : Represents bitmap numItems pool)
    (known : which ∈ pool.names) : bitmap.test which = some (decide (which ∈ pool.taken)) := by
  obtain ⟨i, rfl, below⟩ := represents.number known
  rw [test_inRange bitmap below, represents.bit i below]

/-- `Mark` takes the number, and no other. -/
theorem Represents.mark (represents : Represents bitmap numItems pool)
    (known : which ∈ pool.names) : ∃ after next, bitmap.mark which = some after ∧
      pool.take which = some next ∧ Represents after numItems next := by
  obtain ⟨i, rfl, below⟩ := represents.number known
  -- What the pool does is known, as the number is one of its names.
  obtain ⟨next, takes⟩ : ∃ next, pool.take i = some next := ⟨_, dif_pos known⟩
  obtain ⟨-, names, taken⟩ := pool.take_eq_some.mp takes
  refine ⟨_, next, mark_inRange bitmap below, takes, represents.size, names ▸ represents.names, ?_⟩
  -- The bit itself is set, and every other one is as it was.
  intro j inside
  rw [bit_setBit bitmap below, represents.bit j inside, taken]
  simp only [Finset.mem_insert, Int.ofNat_inj, Bool.decide_or, beq_eq_decide]

/-- `Clear` gives the number back, and no other. -/
theorem Represents.clear (represents : Represents bitmap numItems pool)
    (known : which ∈ pool.names) : ∃ after next, bitmap.clear which = some after ∧
      pool.release which = some next ∧ Represents after numItems next := by
  obtain ⟨i, rfl, below⟩ := represents.number known
  obtain ⟨next, releases⟩ : ∃ next, pool.release i = some next := ⟨_, dif_pos known⟩
  obtain ⟨-, names, taken⟩ := pool.release_eq_some.mp releases
  refine ⟨_, next, clear_inRange bitmap below, releases, represents.size,
    names ▸ represents.names, ?_⟩
  -- The bit itself is clear, and every other one is as it was.
  intro j inside
  rw [bit_clearBit bitmap below, represents.bit j inside, taken]
  simp only [Finset.mem_erase, ne_eq, Int.ofNat_inj, Bool.decide_and, decide_not, bne,
    beq_eq_decide]

/-- `FindAndSet` takes the least number that is free, or finds that all are taken. -/
theorem Represents.findAndSet (represents : Represents bitmap numItems pool) :
    (∃ least after next, pool.least = some least ∧ bitmap.findAndSet = some (least, after) ∧
        pool.take least = some next ∧ Represents after numItems next) ∨
      (pool.least = none ∧ bitmap.findAndSet = some (-1, bitmap)) := by
  rcases bitmap.findAndSet_cases with ⟨i, below, clear, before, found⟩ | ⟨full, found⟩
  · -- The first clear bit is that of the least free number.
    have known := represents.known_of_lt below
    rw [represents.bit i below, decide_eq_false_iff_not] at clear
    have least : pool.least = some (i : Int) := by
      refine pool.least_eq_some.mpr ⟨pool.mem_free.mpr ⟨known, clear⟩, fun other there smaller => ?_⟩
      obtain ⟨j, rfl, inside⟩ := represents.number there
      have set := before j (Int.ofNat_lt.mp smaller)
      rwa [represents.bit j inside, decide_eq_true_iff] at set
    obtain ⟨after, next, marked, takes, still⟩ := represents.mark known
    cases (mark_inRange bitmap below).symm.trans marked
    exact .inl ⟨i, _, next, least, found, takes, still⟩
  · -- Every bit is set, so every number is taken.
    refine .inr ⟨pool.least_eq_none.mpr (Finset.Subset.antisymm pool.inside fun name known => ?_),
      found⟩
    obtain ⟨i, rfl, below⟩ := represents.number known
    have set := full i below
    rwa [represents.bit i below, decide_eq_true_iff] at set

/-- The loop of `NumClear` counts the clear bits, and no assertion fails. -/
theorem countFrom_eq (bitmap : Bitmap) {indices : List Nat}
    (inRange : ∀ i ∈ indices, i < bitmap.numBits) : ∀ count : Int,
      bitmap.countFrom indices count =
        some (count + (indices.countP fun i => !bitmap.bit i : Nat)) := by
  -- By induction on the bits that are left to look at.
  induction indices with
  | nil => simp [countFrom]
  | cons i rest ih =>
    intro count
    have here := inRange i (by simp)
    have later := ih fun j member => inRange j (by simp [member])
    cases set : bitmap.bit i with
    -- A clear bit is counted.
    | false =>
      simp [countFrom, test_inRange bitmap here, set, later]
      omega
    -- A bit that is set is not.
    | true => simp [countFrom, test_inRange bitmap here, set, later]

/-- `NumClear` counts the clear bits. -/
theorem countClear_eq (bitmap : Bitmap) : bitmap.countClear = some (bitmap.numClear : Int) := by
  unfold countClear
  rw [countFrom_eq bitmap (fun i => List.mem_range.mp), Int.zero_add]
  rfl

/-- `NumClear` is the number of all bits less those that are taken. -/
theorem Represents.countClear (represents : Represents bitmap numItems pool) :
    bitmap.countClear = some (numItems - pool.taken.card : Int) := by
  -- The clear bits are those of the free numbers.
  have free : pool.free = bitmap.clearBits.image fun i : Nat => (i : Int) := by
    ext name
    rw [pool.mem_free, Finset.mem_image]
    constructor
    · rintro ⟨known, unused⟩
      obtain ⟨i, rfl, below⟩ := represents.number known
      exact ⟨i, by simp [represents.bit i below, below, unused], rfl⟩
    · rintro ⟨i, clear, rfl⟩
      obtain ⟨below, clear⟩ := (mem_clearBits bitmap i).mp clear
      rw [represents.bit i below, decide_eq_false_iff_not] at clear
      exact ⟨represents.known_of_lt below, clear⟩
  -- All numbers together are the taken ones and the free ones.
  have count := pool.card_free
  rw [free, Finset.card_image_of_injective _ fun i j same => Int.ofNat_inj.mp same,
    represents.names, BitNumbers.card_all, ← numClear_eq_card] at count
  have size := represents.size
  rw [countClear_eq]
  congr 1
  omega

/-- Clearing the bits of a new bitmap one by one fails no assertion, and leaves them clear. -/
theorem clearEach_some {indices : List Nat} : ∀ {bitmap : Bitmap},
    (∀ i ∈ indices, i < bitmap.numBits) → (∀ i, bitmap.bit i = false) →
      ∃ after, bitmap.clearEach indices = some after ∧ after.numBits = bitmap.numBits ∧
        ∀ i, after.bit i = false := by
  -- No bit is set before, and clearing one leaves it so.
  induction indices with
  | nil => exact fun _ clear => ⟨_, rfl, rfl, clear⟩
  | cons i rest ih =>
    intro bitmap inRange clear
    -- The bit is in range, so that the assertion holds.
    have here := inRange i List.mem_cons_self
    obtain ⟨after, cleared, size, still⟩ := @ih (bitmap.clearBit i)
      (fun j member => inRange j (List.mem_cons_of_mem i member)) fun j => by
        rw [bit_clearBit bitmap here, clear j, Bool.and_false]
    refine ⟨after, ?_, size, still⟩
    rw [clearEach, clear_inRange bitmap here]
    exact cleared

/-- The constructor fails no assertion, and makes a bitmap of which no number is taken. -/
theorem construct_represents (positive : 0 < numItems) : ∃ made, construct numItems = some made ∧
    Represents made numItems (.fresh (BitNumbers.all numItems)) := by
  -- The words are all 0 before the bits are cleared once more.
  obtain ⟨made, cleared, size, clear⟩ := @clearEach_some (List.range numItems.toNat)
    (.new numItems.toNat) (fun i => List.mem_range.mp) (bit_new numItems.toNat)
  refine ⟨made, ?_, ?_, Pool.names_fresh _, fun i _ => ?_⟩
  · rw [construct, if_pos positive]
    exact cleared
  · rw [size, numBits_new, Int.toNat_of_nonneg positive.le]
  · rw [clear i, Pool.taken_fresh]
    rfl

/-- The bitmap represents the pool, and both have given the same answers. -/
def Follows (numItems : Int) (state : Bitmap × List Int) (twin : Pool Int × List Int) : Prop :=
  Represents state.1 numItems twin.1 ∧ state.2 = twin.2

/-- A call in range fails no assertion, and does what it does to the numbers that are taken. -/
theorem step_follows (state : Bitmap × List Int) (twin : Pool Int × List Int)
    (event : BitmapEvent) (related : Follows numItems state twin)
    (allowed : event.InRange numItems) : ∃ after next, step state event = some after ∧
      BitNumbers.step twin event = some next ∧ Follows numItems after next := by
  obtain ⟨bitmap, given⟩ := state
  obtain ⟨pool, _⟩ := twin
  obtain ⟨represents, rfl⟩ := related
  -- One case for each call: the pool does the same, and gives the same answer.
  cases event with
  -- Marking takes the number.
  | mark which =>
    obtain ⟨after, next, marked, takes, still⟩ := represents.mark (represents.known.mpr allowed)
    exact ⟨(after, given), (next, given), by rw [step, marked]; rfl,
      by rw [BitNumbers.step, takes]; rfl, still, rfl⟩
  -- Clearing releases it.
  | clear which =>
    obtain ⟨after, next, cleared, releases, still⟩ :=
      represents.clear (represents.known.mpr allowed)
    exact ⟨(after, given), (next, given), by rw [step, cleared]; rfl,
      by rw [BitNumbers.step, releases]; rfl, still, rfl⟩
  -- The search takes the least number, or finds none.
  | findAndSet =>
    rcases represents.findAndSet with ⟨least, after, next, free, found, takes, still⟩ | ⟨none, found⟩
    · exact ⟨(after, given ++ [least]), (next, given ++ [least]), by rw [step, found]; rfl,
        by simp only [BitNumbers.step, free, takes, Option.map_some], still, rfl⟩
    · exact ⟨(bitmap, given ++ [-1]), (pool, given ++ [-1]), by rw [step, found]; rfl,
        by rw [BitNumbers.step, none], represents, rfl⟩

/-- `Test` tells the members of this set from all others, and `NumClear` counts the others. -/
structure IsSetOf (bitmap : Bitmap) (numItems : Int) (members : Finset Int) : Prop where
  tests : ∀ which, 0 ≤ which → which < numItems →
    bitmap.test which = some (decide (which ∈ members))
  counts : bitmap.countClear = some (numItems - members.card)

/-- What each call does to a bitmap that is this set. -/
structure CallsOf (bitmap : Bitmap) (numItems : Int) (members : Finset Int) : Prop where
  mark : ∀ which, 0 ≤ which → which < numItems →
    ∃ after, bitmap.mark which = some after ∧ after.IsSetOf numItems (insert which members)
  clear : ∀ which, 0 ≤ which → which < numItems →
    ∃ after, bitmap.clear which = some after ∧ after.IsSetOf numItems (members.erase which)
  full : bitmap.findAndSet = some (-1, bitmap) ↔ members = BitNumbers.all numItems
  find : members ≠ BitNumbers.all numItems → ∃ least after,
    bitmap.findAndSet = some (least, after) ∧ 0 ≤ least ∧ least < numItems ∧ least ∉ members ∧
      (∀ other, 0 ≤ other → other < least → other ∈ members) ∧
      after.IsSetOf numItems (insert least members) ∧
      after.countClear = bitmap.countClear.map (· - 1)

/-- A bitmap that represents a pool is the set of the numbers that are taken. -/
theorem Represents.isSetOf (represents : Represents bitmap numItems pool) :
    bitmap.IsSetOf numItems pool.taken where
  tests _ positive below := represents.test (represents.known.mpr ⟨positive, below⟩)
  counts := represents.countClear

/-- Finding the least free number leaves one clear bit fewer. -/
theorem Represents.countClear_find (represents : Represents bitmap numItems pool) {after : Bitmap}
    {next : Pool Int} (unused : which ∉ pool.taken) (takes : pool.take which = some next)
    (still : Represents after numItems next) :
    after.countClear = bitmap.countClear.map (· - 1) := by
  obtain ⟨-, -, taken⟩ := pool.take_eq_some.mp takes
  -- One more number is taken, out of as many.
  rw [represents.countClear, still.countClear, taken, Finset.card_insert_of_notMem unused]
  congr 1
  push_cast
  omega

/-- A bitmap that represents a pool does with each call what the call does to the set. -/
theorem Represents.callsOf (represents : Represents bitmap numItems pool) :
    bitmap.CallsOf numItems pool.taken where
  mark _ positive below := by
    -- `Mark` and `Clear` change one member, as the pool does.
    obtain ⟨after, next, marked, takes, still⟩ :=
      represents.mark (represents.known.mpr ⟨positive, below⟩)
    exact ⟨after, marked, (pool.take_eq_some.mp takes).2.2 ▸ still.isSetOf⟩
  clear _ positive below := by
    obtain ⟨after, next, cleared, releases, still⟩ :=
      represents.clear (represents.known.mpr ⟨positive, below⟩)
    exact ⟨after, cleared, (pool.release_eq_some.mp releases).2.2 ▸ still.isSetOf⟩
  full := by
    rw [← represents.names, ← pool.least_eq_none]
    rcases represents.findAndSet with ⟨least, after, -, free, found, -⟩ | ⟨none, found⟩
    · -- What is found is a bit number, and so not negative.
      have known := (pool.mem_free.mp (pool.least_eq_some.mp free).1).1
      have positive := (represents.known.mp known).1
      rw [free, found]
      refine ⟨fun same => ?_, nofun⟩
      cases same
      omega
    · -- If no number is free, minus one is found.
      exact ⟨fun _ => none, fun _ => found⟩
  find notFull := by
    rw [← represents.names] at notFull
    rcases represents.findAndSet with ⟨least, after, next, free, found, takes, still⟩ | ⟨none, -⟩
    -- It is the least number that is no member, so all smaller ones are.
    · obtain ⟨unused, below⟩ := pool.least_eq_some.mp free
      obtain ⟨known, unused⟩ := pool.mem_free.mp unused
      obtain ⟨positive, inside⟩ := represents.known.mp known
      refine ⟨least, after, found, positive, inside, unused, fun other start smaller => ?_,
        (pool.take_eq_some.mp takes).2.2 ▸ still.isSetOf,
        represents.countClear_find unused takes still⟩
      exact below other (represents.known.mpr ⟨start, smaller.trans inside⟩) smaller
    · -- Not all numbers are taken, so one is found.
      exact absurd (pool.least_eq_none.mp none) notFull

end Bitmap

/--
A bitmap is a set of bit numbers.

Whatever calls in range follow the constructor, for whatever positive size: no assertion fails, the
bitmap is the set of the numbers that are taken, `FindAndSet` has answered what the set answers, and
every further call does to the bitmap what it does to the set.
-/
theorem bitmap_isSet {numItems : Int} (positive : 0 < numItems) (events : List BitmapEvent)
    (inRange : ∀ event ∈ events, event.InRange numItems) : ∃ made bitmap pool answers,
      Bitmap.construct numItems = some made ∧
      replay Bitmap.step (made, []) events = some (bitmap, answers) ∧
      replay BitNumbers.step (.fresh (BitNumbers.all numItems), []) events = some (pool, answers) ∧
      bitmap.IsSetOf numItems pool.taken ∧ bitmap.CallsOf numItems pool.taken := by
  -- The constructor makes a bitmap of no members.
  obtain ⟨made, constructed, represents⟩ := Bitmap.construct_represents positive
  -- Bitmap and set go through the calls side by side.
  have start : Bitmap.Follows numItems (made, []) (.fresh (BitNumbers.all numItems), []) :=
    ⟨represents, rfl⟩
  obtain ⟨⟨bitmap, answers⟩, ⟨pool, _⟩, ran, specified, still, rfl⟩ :=
    replay_lockstep Bitmap.step_follows start
      (everyStep_of_mem (fun event member _ => inRange event member) (made, []))
  exact ⟨made, bitmap, pool, answers, constructed, ran, specified, still.isSetOf, still.callsOf⟩

/-- The last of these numbers is alone in its word. -/
theorem bitmap_isSet_partlyUsed : ∃ made bitmap, Bitmap.construct 33 = some made ∧
    replay Bitmap.step (made, []) [.findAndSet, .mark 32, .clear 0, .findAndSet, .findAndSet] =
      some (bitmap, [0, 0, 1]) ∧ bitmap.IsSetOf 33 {0, 1, 32} := by
  obtain ⟨made, bitmap, pool, answers, constructed, ran, specified, set, -⟩ :=
    bitmap_isSet (show (0 : Int) < 33 by decide)
      [.findAndSet, .mark 32, .clear 0, .findAndSet, .findAndSet] (by decide)
  -- The set can be computed, and the bitmap has gone along with it.
  have computed : (replay BitNumbers.step (.fresh (BitNumbers.all 33), [])
      [.findAndSet, .mark 32, .clear 0, .findAndSet, .findAndSet]).map
        (fun state => (state.1.taken, state.2)) = some ({0, 1, 32}, [0, 0, 1]) := by decide +kernel
  rw [specified, Option.map_some, Option.some.injEq, Prod.mk.injEq] at computed
  obtain ⟨taken, rfl⟩ := computed
  -- These are the numbers that are taken at the end.
  rw [taken] at set
  exact ⟨made, bitmap, constructed, ran, set⟩

end Nachos
