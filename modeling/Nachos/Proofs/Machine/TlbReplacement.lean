import Nachos.Proofs.Machine.Tlb
import Nachos.Theory.Least
import Nachos.Theory.Run

/-! Which entry of a set leaves the TLB when a translation is installed. -/

namespace Nachos

/-- A call of one of the operations of the TLB manager. -/
inductive TlbCall
  | translate (virtAddr : Nat)
  | update (virtAddr : Nat) (pageFrame currentPid : Int)
  | invalidEntry (threadId : Int) (vpn : Nat)

namespace TLB

/-- One call, without what it returns. -/
def call (tlb : TLB) : TlbCall → TLB
  | .translate virtAddr => (tlb.translate virtAddr).2
  | .update virtAddr pageFrame currentPid => tlb.update virtAddr pageFrame currentPid
  | .invalidEntry threadId vpn => tlb.invalidEntry threadId vpn

/-- An entry that has grown older by one update. The age is an unsigned int. -/
def older (entry : TLBEntry) : TLBEntry := { entry with lru := (entry.lru + 1) % 2 ^ 32 }

/-- Growing older does not change which entries are valid. -/
theorem valid_older (set : Fin 4 → TLBEntry) (i way : Fin 4) :
    (Function.update set i (older (set i)) way).valid = (set way).valid := by
  by_cases here : way = i
  · rw [here, Function.update_self, older]
  · rw [Function.update_of_ne here]

/-- The loop of `update` passes an entry: neither it nor an entry before it is invalid. -/
abbrev Passes (set : Fin 4 → TLBEntry) (way : Fin 4) : Prop := ∀ v ≤ way, (set v).valid = true

/-- The loop goes on behind a valid entry, with the older of this one and the one chosen so far. -/
theorem ageFrom_valid {set : Fin 4 → TLBEntry} {i : Fin 4} (chosen : Fin 4) (rest : List (Fin 4))
    (valid : (set i).valid = true) :
    ageFrom set chosen (i :: rest) =
      ageFrom (Function.update set i (older (set i)))
        (if (Function.update set i (older (set i)) i).lru >
          (Function.update set i (older (set i)) chosen).lru then i else chosen) rest := by
  rw [ageFrom, if_pos valid]
  exact (apply_ite (fun chosen => ageFrom (Function.update set i (older (set i))) chosen rest)
    _ i chosen).symm

/-- The loop makes the entries older that it passes. -/
theorem ageFrom_entry {indices : List (Fin 4)} (sorted : indices.Pairwise (· < ·)) :
    ∀ (set : Fin 4 → TLBEntry) (chosen way : Fin 4), (ageFrom set chosen indices).1 way =
      if way ∈ indices ∧ ∀ v ∈ indices, v ≤ way → (set v).valid = true then older (set way)
      else set way := by
  -- The induction is on the entries that the loop has not reached yet.
  induction indices with
  -- No entry is left to pass.
  | nil =>
    intro set chosen way
    simp [ageFrom]
  | cons i rest ih =>
    obtain ⟨first, sorted⟩ := List.pairwise_cons.mp sorted
    intro set chosen way
    -- The loop comes to each entry once.
    have notLater : i ∉ rest := fun member => lt_irrefl i (first i member)
    cases valid : (set i).valid with
    | false =>
      -- The loop stops here, before every entry that is left.
      have stopped : ¬ (way ∈ i :: rest ∧ ∀ v ∈ i :: rest, v ≤ way → (set v).valid = true) := by
        rintro ⟨member, all⟩
        have order : i ≤ way := by
          rcases List.mem_cons.mp member with same | later
          · exact same.ge
          · exact (first way later).le
        have holds := all i List.mem_cons_self order
        rw [valid] at holds
        cases holds
      rw [if_neg stopped]
      simp [ageFrom, valid]
    | true =>
      -- Whichever entry is chosen by now, this one is older, and the loop goes on.
      have walked : ∀ chosen, (ageFrom (Function.update set i (older (set i))) chosen rest).1 way =
          if way ∈ i :: rest ∧ ∀ v ∈ i :: rest, v ≤ way → (set v).valid = true then
            older (set way) else set way := by
        intro chosen
        rw [ih sorted]
        simp only [valid_older]
        -- This entry is not reached again; the others are aged by the rest of the loop.
        by_cases here : way = i
        · subst here
          rw [if_neg fun both => notLater both.1, Function.update_self, if_pos]
          refine ⟨List.mem_cons_self, fun v member order => ?_⟩
          rcases List.mem_cons.mp member with same | later
          · rw [same]
            exact valid
          · -- It would come earlier and later.
            exact absurd (first v later) (not_lt.mpr order)
        · rw [Function.update_of_ne here]
          refine if_congr (and_congr ?_ ?_) rfl rfl
          · simp [here]
          · simp [valid]
      rw [ageFrom_valid chosen rest valid]
      exact walked _

/-- Among valid entries the loop keeps the first of those that are oldest when it has passed. -/
theorem ageFrom_chosen (start : Fin 4 → TLBEntry) {indices : List (Fin 4)} :
    ∀ (set : Fin 4 → TLBEntry) (chosen : Fin 4), (chosen :: indices).Nodup →
      set chosen = older (start chosen) →
      (∀ i ∈ indices, set i = start i ∧ (start i).valid = true) →
      (ageFrom set chosen indices).2 =
        leastFrom (fun i => OrderDual.toDual (older (start i)).lru) chosen indices := by
  -- By induction on the entries ahead.
  induction indices with
  | nil => exact fun set chosen _ _ _ => rfl
  | cons i rest ih =>
    intro set chosen distinct passed ahead
    obtain ⟨same, valid⟩ := ahead i List.mem_cons_self
    simp only [List.nodup_cons, List.mem_cons, not_or] at distinct
    obtain ⟨⟨apart, chosenBefore⟩, iBefore, distinct⟩ := distinct
    -- After this entry has grown older, the entries ahead are still as they were.
    have later : ∀ j ∈ rest, Function.update set i (older (set i)) j = start j ∧
        (start j).valid = true := by
      intro j member
      have other : j ≠ i := fun equal => iBefore (equal ▸ member)
      rw [Function.update_of_ne other]
      exact ahead j (List.mem_cons_of_mem i member)
    have here : Function.update set i (older (set i)) i = older (start i) := by
      rw [Function.update_self, same]
    have there : Function.update set i (older (set i)) chosen = older (start chosen) := by
      rw [Function.update_of_ne apart, passed]
    -- One turn compares this entry with the chosen one, both aged by now.
    rw [ageFrom_valid chosen rest (same ▸ valid), leastFrom, here, there]
    -- The source asks for a larger age, which is a smaller key in the reversed order.
    by_cases larger : (older (start i)).lru > (older (start chosen)).lru
    · -- This one is older and becomes the chosen one.
      rw [if_pos larger, if_pos (OrderDual.toDual_lt_toDual.mpr larger)]
      exact ih _ i (List.nodup_cons.mpr ⟨iBefore, distinct⟩) here later
    · -- The chosen one stays, as on equal ages.
      rw [if_neg larger, if_neg fun less => larger (OrderDual.toDual_lt_toDual.mp less)]
      exact ih _ chosen (List.nodup_cons.mpr ⟨chosenBefore, distinct⟩) there later

/-- In a full set, `update` replaces the first of the entries that have the greatest age then. -/
theorem replaced_full {set : Fin 4 → TLBEntry} (full : ∀ way, (set way).valid = true) :
    replaced set = leastFrom (fun i => OrderDual.toDual (older (set i)).lru) 0
      (List.finRange 4) := by
  have split : List.finRange 4 = 0 :: [1, 2, 3] := rfl
  unfold replaced
  -- The loop starts with the first entry as the one chosen, and then reaches it.
  rw [split, leastFrom_self, ageFrom, if_pos (full 0)]
  -- The first entry is compared with itself.
  dsimp only
  rw [if_neg (lt_irrefl _)]
  refine ageFrom_chosen set _ 0 (by decide) (Function.update_self ..) fun i member => ?_
  have other : i ≠ 0 := by
    rintro rfl
    exact absurd member (by decide)
  exact ⟨Function.update_of_ne other .., full i⟩

/-- The loop stops at an entry that is not valid, if there is one ahead. -/
theorem ageFrom_invalid {indices : List (Fin 4)} :
    ∀ (set : Fin 4 → TLBEntry) (chosen : Fin 4), (∃ i ∈ indices, (set i).valid = false) →
      (set (ageFrom set chosen indices).2).valid = false := by
  -- By induction on the entries ahead, of which one is not valid.
  induction indices with
  | nil =>
    rintro set chosen ⟨i, member, -⟩
    exact absurd member List.not_mem_nil
  | cons i rest ih =>
    rintro set chosen ⟨free, member, invalid⟩
    cases valid : (set i).valid with
    -- It is this one, and the loop stops with it.
    | false => simp [ageFrom, valid]
    | true =>
      -- This one is valid, so the invalid one is further on.
      have ahead : free ∈ rest := by
        rcases List.mem_cons.mp member with same | later
        · rw [same, valid] at invalid
          cases invalid
        · exact later
      -- The entries ahead are as valid as they were.
      have walked : ∀ chosen, (set (ageFrom (Function.update set i (older (set i))) chosen
          rest).2).valid = false := by
        intro chosen
        rw [← valid_older set i]
        exact ih _ chosen ⟨free, ahead, by rw [valid_older, invalid]⟩
      rw [ageFrom_valid chosen rest valid]
      exact walked _

/-- In a set that is not full, `update` replaces an entry that is not valid. -/
theorem replaced_invalid {set : Fin 4 → TLBEntry} (free : ¬ ∀ way, (set way).valid = true) :
    (set (replaced set)).valid = false := by
  obtain ⟨way, invalid⟩ := not_forall.mp free
  exact ageFrom_invalid set 0 ⟨way, List.mem_finRange way, by simpa using invalid⟩

/-- What `update` makes of the entry it replaces, and of the others. -/
theorem update_entry (tlb : TLB) (virtAddr : Nat) (pageFrame currentPid : Int) (way : Fin 4) :
    tlb.update virtAddr pageFrame currentPid (index (virtAddr / pageSize)) way =
      if way = replaced (tlb (index (virtAddr / pageSize))) then
        ⟨tagOf (virtAddr / pageSize), pageFrame, true, currentPid, 0⟩
      else if Passes (tlb (index (virtAddr / pageSize))) way then
        older (tlb (index (virtAddr / pageSize)) way)
      else tlb (index (virtAddr / pageSize)) way := by
  -- Every entry that the loop has passed is older by one.
  have aged := ageFrom_entry (List.pairwise_lt_finRange 4) (tlb (index (virtAddr / pageSize))) 0 way
  simp only [List.mem_finRange, true_and, forall_true_left] at aged
  unfold update replaced
  dsimp only
  rw [Function.update_self]
  -- The new entry is put in after the loop, in place of whatever the loop made of the old one.
  by_cases here : way = (ageFrom (tlb (index (virtAddr / pageSize))) 0 (List.finRange 4)).2
  · -- The entry that is replaced is the new one.
    rw [if_pos here, here, Function.update_self]
  · -- The others are what the loop has made of them.
    rw [if_neg here, Function.update_of_ne here, aged]

end TLB

/-- The history of the entries of one set. -/
structure SetUsage where
  calls : Nat
  -- The number of the call that last hit or installed an entry.
  used : Fin 4 → Nat
  -- How many updates of the set have passed an entry since then.
  passed : Fin 4 → Nat

namespace SetUsage

/-- A call that leaves the history of the set as it is. -/
def tick (usage : SetUsage) : SetUsage := { usage with calls := usage.calls + 1 }

/-- A call that hits or installs an entry. -/
def use (usage : SetUsage) (way : Fin 4) : SetUsage where
  calls := usage.calls + 1
  used := Function.update usage.used way usage.calls
  passed := Function.update usage.passed way 0

/-- An update passes the entries that have no invalid one before them. -/
def pass (usage : SetUsage) (entries : Fin 4 → TLBEntry) : SetUsage :=
  { usage with passed := fun way =>
      if TLB.Passes entries way then usage.passed way + 1 else usage.passed way }

/-- The history of a set after a call. -/
def after (usage : SetUsage) (tlb : TLB) (set : Fin 4) : TlbCall → SetUsage
  | .translate virtAddr =>
    if TLB.index (virtAddr / pageSize) = set then
      match tlb.hit (virtAddr / pageSize) with
      | some way => usage.use way
      | none => usage.tick
    else usage.tick
  | .update virtAddr _ _ =>
    if TLB.index (virtAddr / pageSize) = set then
      (usage.pass (tlb set)).use (TLB.replaced (tlb set))
    else usage.tick
  | .invalidEntry _ _ => usage.tick

end SetUsage

/-- The TLB with the history of one of its sets. -/
structure WatchedSet where
  tlb : TLB
  usage : SetUsage

namespace WatchedSet

/-- The TLB as its constructor leaves it. -/
def start (uninitialised : TLB) : WatchedSet where
  tlb := .new uninitialised
  usage := ⟨0, fun _ => 0, fun _ => 0⟩

/-- One call, of which the history is kept for one set. -/
def call (set : Fin 4) (watched : WatchedSet) (called : TlbCall) : WatchedSet where
  tlb := watched.tlb.call called
  usage := watched.usage.after watched.tlb set called

variable {watched : WatchedSet} {set : Fin 4}

/-- The entry was last hit or installed before all others. -/
def LeastRecent (watched : WatchedSet) (way : Fin 4) : Prop :=
  ∀ other ≠ way, watched.usage.used way < watched.usage.used other

/-- No entry of the set is invalid. -/
def Full (watched : WatchedSet) (set : Fin 4) : Prop :=
  ∀ way, (watched.tlb set way).valid = true

instance (watched : WatchedSet) (set : Fin 4) : Decidable (watched.Full set) :=
  inferInstanceAs (Decidable (∀ _ : Fin 4, _))

/-- An update should replace an invalid entry, or else the one that was used longest ago. -/
structure ReplacesOldest (watched : WatchedSet) (set : Fin 4) : Prop where
  full : watched.Full set → watched.LeastRecent (TLB.replaced (watched.tlb set))
  free : ¬ watched.Full set → (watched.tlb set (TLB.replaced (watched.tlb set))).valid = false

/-- More updates have passed the entry that was used longest ago than any other one. -/
def OldestPassed (watched : WatchedSet) : Prop :=
  ∃ way, watched.LeastRecent way ∧ ∀ other ≠ way,
    -- As many are enough for an entry that comes before the other one.
    (watched.usage.passed other + 1) % 2 ^ 32 < (watched.usage.passed way + 1) % 2 ^ 32 ∨
      (watched.usage.passed other + 1) % 2 ^ 32 = (watched.usage.passed way + 1) % 2 ^ 32 ∧
        way < other

/-- What the ages of the valid entries say about their history. -/
structure Tallied (watched : WatchedSet) (set : Fin 4) : Prop where
  past : ∀ way, (watched.tlb set way).valid = true →
    watched.usage.used way < watched.usage.calls
  apart : ∀ v w, (watched.tlb set v).valid = true → (watched.tlb set w).valid = true →
    watched.usage.used v = watched.usage.used w → v = w
  ages : ∀ way, (watched.tlb set way).valid = true →
    (watched.tlb set way).lru = watched.usage.passed way % 2 ^ 32

/-- A call that makes no entry valid and changes no age keeps the ages right. -/
theorem Tallied.tick (tallied : watched.Tallied set) {tlb : TLB}
    (kept : ∀ way, (tlb set way).valid = true →
      (watched.tlb set way).valid = true ∧ (tlb set way).lru = (watched.tlb set way).lru) :
    Tallied ⟨tlb, watched.usage.tick⟩ set where
  past way valid := Nat.lt_succ_of_lt (tallied.past way (kept way valid).1)
  apart v w first second same := tallied.apart v w (kept v first).1 (kept w second).1 same
  ages way valid := (kept way valid).2.trans (tallied.ages way (kept way valid).1)

/-- A call that uses an entry keeps the ages right. -/
theorem Tallied.use (tallied : watched.Tallied set) {tlb : TLB} {way : Fin 4}
    {passed : Fin 4 → Nat} (young : (tlb set way).lru = 0)
    (kept : ∀ other ≠ way, (tlb set other).valid = true →
      (watched.tlb set other).valid = true ∧ (tlb set other).lru = passed other % 2 ^ 32) :
    Tallied ⟨tlb, { watched.usage with passed }.use way⟩ set where
  past other valid := by
    -- The number of this call is the count of the calls before it.
    by_cases here : other = way
    · -- The entry is used now.
      simp [SetUsage.use, here]
    · -- Another one was used before.
      have before := tallied.past other (kept other here valid).1
      simp only [SetUsage.use, Function.update_of_ne here]
      omega
  apart v w first second same := by
    by_cases here : v = way <;> by_cases there : w = way
    · -- Both are the entry of this call.
      rw [here, there]
    · -- The other entry was used before this call.
      have before := tallied.past w (kept w there second).1
      simp only [SetUsage.use, here, Function.update_self, Function.update_of_ne there] at same
      omega
    · -- The same the other way round.
      have before := tallied.past v (kept v here first).1
      simp only [SetUsage.use, there, Function.update_self, Function.update_of_ne here] at same
      omega
    · -- Neither is used now.
      simp only [SetUsage.use, Function.update_of_ne here, Function.update_of_ne there] at same
      exact tallied.apart v w (kept v here first).1 (kept w there second).1 same
  ages other valid := by
    by_cases here : other = way
    · -- The entry of this call is young.
      simp [SetUsage.use, here, young]
    · -- The others are as old as they should be.
      simp only [SetUsage.use, Function.update_of_ne here]
      exact (kept other here valid).2

/-- A call that leaves the entries of the set alone keeps the ages right. -/
theorem Tallied.elsewhere (tallied : watched.Tallied set) {tlb : TLB}
    (same : tlb set = watched.tlb set) : Tallied ⟨tlb, watched.usage.tick⟩ set :=
  tallied.tick fun way valid => by
    rw [same] at valid ⊢
    exact ⟨valid, rfl⟩

/-- Every call keeps the ages right. -/
theorem Tallied.call (tallied : watched.Tallied set) (called : TlbCall) :
    (watched.call set called).Tallied set := by
  unfold WatchedSet.call
  cases called with
  | translate virtAddr =>
    -- A hit makes the entry young, and leaves the ages of all others.
    simp only [TLB.call, SetUsage.after]
    cases found : watched.tlb.hit (virtAddr / pageSize) with
    -- A miss uses nothing.
    | none =>
      rw [TLB.translate_miss found]
      split <;> exact tallied.elsewhere rfl
    -- A hit uses its entry, if that is in this set.
    | some way =>
      rw [TLB.translate_hit found]
      split
      · rename_i here
        subst here
        refine tallied.use ?_ fun other apart valid => ?_
        · simp [TLB.put]
        · simp only [TLB.put, Function.update_self, Function.update_of_ne apart] at valid ⊢
          exact ⟨valid, tallied.ages other valid⟩
      · -- It is in another set.
        rename_i other
        exact tallied.elsewhere (Function.update_of_ne (Ne.symm other) ..)
  | update virtAddr pageFrame currentPid =>
    simp only [TLB.call, SetUsage.after]
    -- An update replaces an entry of its own set.
    split
    · rename_i here
      subst here
      have entry := watched.tlb.update_entry virtAddr pageFrame currentPid
      refine tallied.use ?_ fun other apart valid => ?_
      · -- The new entry is valid and young.
        rw [entry, if_pos rfl]
      · rw [entry, if_neg apart] at valid ⊢
        -- The age grows with the count of the updates that have passed.
        split at valid
        · rename_i passes
          rw [if_pos passes, if_pos passes, TLB.older, tallied.ages other valid]
          exact ⟨valid, Nat.mod_add_mod ..⟩
        · -- The loop has stopped before this entry, which stays as old.
          rename_i stops
          rw [if_neg stops, if_neg stops]
          exact ⟨valid, tallied.ages other valid⟩
    · -- The update is of another set.
      rename_i other
      exact tallied.elsewhere (Function.update_of_ne (Ne.symm other) ..)
  | invalidEntry threadId vpn =>
    -- Entries only become invalid, and nothing is asked of those.
    refine tallied.tick fun way valid => ?_
    simp only [TLB.call, TLB.invalidEntry] at valid ⊢
    by_cases here : set = TLB.index vpn
    · subst here
      simp only [Function.update_self] at valid ⊢
      split at valid
      · -- The entry has become invalid.
        cases valid
      · -- It is kept as it was.
        rename_i kept
        rw [if_neg kept]
        exact ⟨valid, rfl⟩
    · -- The entries of other sets are not looked at.
      rw [Function.update_of_ne here] at valid ⊢
      exact ⟨valid, rfl⟩

/-- After every sequence of calls, the ages are right. -/
theorem tallied_of_calls (uninitialised : TLB) (set : Fin 4) (calls : List TlbCall) :
    (calls.foldl (call set) (.start uninitialised)).Tallied set := by
  -- By induction on the calls, the last one taken off.
  induction calls using List.reverseRecOn with
  | nil =>
    -- The constructor makes every entry invalid.
    have invalid : ∀ way, ((start uninitialised).tlb set way).valid = false := fun _ => rfl
    refine ⟨fun way valid => ?_, fun v w valid => ?_, fun way valid => ?_⟩
    · rw [List.foldl_nil, invalid] at valid
      cases valid
    · rw [List.foldl_nil, invalid] at valid
      cases valid
    · rw [List.foldl_nil, invalid] at valid
      cases valid
  -- One more call is made.
  | append_singleton calls last ih =>
    rw [List.foldl_append]
    exact ih.call last

/-- In a full set, `update` takes the entry used longest ago exactly if its age is the greatest. -/
theorem Tallied.leastRecent_iff (tallied : watched.Tallied set) (full : watched.Full set) :
    watched.LeastRecent (TLB.replaced (watched.tlb set)) ↔ watched.OldestPassed := by
  -- The age that an entry has when the loop has passed it.
  have aged : ∀ way, (TLB.older (watched.tlb set way)).lru =
      (watched.usage.passed way + 1) % 2 ^ 32 := by
    intro way
    rw [TLB.older, tallied.ages way (full way)]
    exact Nat.mod_add_mod ..
  -- The loop takes an entry of greatest age, the first of them in the set.
  have greatest : ∀ other, (watched.usage.passed other + 1) % 2 ^ 32 <
      (watched.usage.passed (TLB.replaced (watched.tlb set)) + 1) % 2 ^ 32 ∨
      (watched.usage.passed other + 1) % 2 ^ 32 =
        (watched.usage.passed (TLB.replaced (watched.tlb set)) + 1) % 2 ^ 32 ∧
        TLB.replaced (watched.tlb set) ≤ other := by
    intro other
    have first := leastFrom_finRange
      (fun i => OrderDual.toDual (TLB.older (watched.tlb set i)).lru) other
    rw [← TLB.replaced_full full] at first
    simp only [aged, OrderDual.toDual_lt_toDual, OrderDual.toDual_inj] at first
    exact first.imp id fun ⟨same, order⟩ => ⟨same.symm, order⟩
  constructor
  · intro recent
    refine ⟨_, recent, fun other apart => ?_⟩
    exact (greatest other).imp id fun ⟨same, order⟩ => ⟨same, lt_of_le_of_ne order (Ne.symm apart)⟩
  · rintro ⟨way, recent, most⟩
    have same : TLB.replaced (watched.tlb set) = way := by
      -- Two entries cannot both be ahead of the other in that order.
      by_contra apart
      have more := most _ apart
      have first := greatest way
      omega
    rwa [same]

end WatchedSet

/--
TLB replacement is least recently used exactly if updates have passed the oldest entry most often.

The ages count updates only, and an update passes no entry that comes after an invalid one, so an
entry that was hit later can be as old as the oldest one, or older.
-/
theorem tlb_replacesOldest_iff (uninitialised : TLB) (set : Fin 4) (calls : List TlbCall) :
    (calls.foldl (WatchedSet.call set) (.start uninitialised)).ReplacesOldest set ↔
      ((calls.foldl (WatchedSet.call set) (.start uninitialised)).Full set →
        (calls.foldl (WatchedSet.call set) (.start uninitialised)).OldestPassed) := by
  have tallied := WatchedSet.tallied_of_calls uninitialised set calls
  constructor
  · intro replaces full
    exact (tallied.leastRecent_iff full).mp (replaces.full full)
  · -- In a set that is not full nothing has to be known about the ages.
    intro passed
    exact ⟨fun full => (tallied.leastRecent_iff full).mpr (passed full), TLB.replaced_invalid⟩

/-- Four entries are installed and then hit in the opposite order: the last one hit is replaced. -/
theorem tlb_replacesNewest : ∃ watched,
    [.update 0 5 0, .update 512 6 0, .update 1024 7 0, .update 1536 8 0, .translate 1536,
      .translate 1024, .translate 512, .translate 0].foldl (WatchedSet.call 0)
        (.start fun _ _ => ⟨0, 0, true, 0, 0⟩) = watched ∧
    watched.Full 0 ∧ TLB.replaced (watched.tlb 0) = 0 ∧ watched.usage.used 0 = 7 ∧
    watched.usage.used 3 = 4 ∧ ¬ watched.ReplacesOldest 0 := by
  refine ⟨_, rfl, by decide +kernel, by decide +kernel, rfl, rfl, fun replaces => ?_⟩
  -- Way 0 was used by the last call, and way 3 long before it.
  have recent := replaces.full (by decide +kernel) 3 (by decide +kernel)
  exact absurd recent (by decide +kernel)

end Nachos
