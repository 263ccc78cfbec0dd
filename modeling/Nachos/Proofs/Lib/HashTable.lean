import Mathlib.Data.List.AList
import Nachos.Lib.HashTable
import Nachos.Proofs.Lib.List
import Nachos.Theory.Run

/-! The hash table is a finite map, and an iterator visits each of its items once. -/

namespace Nachos

namespace HashTable

variable {Key Item : Type} {getKey : Item → Key} {hash : Key → BitVec 32}
  {table : HashTable Item}

/-- The items of a table, bucket by bucket. -/
abbrev items (table : HashTable Item) : List Item := table.buckets.flatten

/-- The bucket that a key belongs in. -/
abbrev place (hash : Key → BitVec 32) (table : HashTable Item) (key : Key) : Nat :=
  (hash key).toNat % table.numBuckets

/-- There are buckets, and every item is in the one that it belongs in. -/
structure Placed (getKey : Item → Key) (hash : Key → BitVec 32) (table : HashTable Item) :
    Prop where
  some_buckets : 0 < table.numBuckets
  placed : ∀ bucket list, table.buckets[bucket]? = some list →
    ∀ item ∈ list, place hash table (getKey item) = bucket

/-- `HashValue` passes its assertion if there are buckets. -/
theorem hashValue_eq (some_buckets : 0 < table.numBuckets) (key : Key) :
    table.hashValue hash key = some (place hash table key) := by
  rw [hashValue]
  exact if_pos (Nat.mod_lt _ some_buckets)

/-- The bucket that a key belongs in is there. -/
theorem exists_place (hash : Key → BitVec 32) (some_buckets : 0 < table.numBuckets) (key : Key) :
    ∃ list, table.buckets[place hash table key]? = some list :=
  ⟨_, List.getElem?_eq_getElem (Nat.mod_lt _ some_buckets)⟩

/-- The items in one bucket and those in the others, and what is there with another list in it. -/
theorem exists_bucket {buckets : List (List Item)} {bucket : Nat} {list : List Item}
    (there : buckets[bucket]? = some list) : ∃ others, buckets.flatten.Perm (list ++ others) ∧
      ∀ other, (buckets.set bucket other).flatten.Perm (other ++ others) := by
  obtain ⟨within, rfl⟩ := List.getElem?_eq_some_iff.mp there
  -- What is in front changes places with the bucket.
  have swapped : ∀ list : List Item,
      ((buckets.take bucket).flatten ++ (list ++ (buckets.drop (bucket + 1)).flatten)).Perm
        (list ++ ((buckets.take bucket).flatten ++ (buckets.drop (bucket + 1)).flatten)) :=
    fun list => List.perm_append_comm_assoc _ list _
  refine ⟨(buckets.take bucket).flatten ++ (buckets.drop (bucket + 1)).flatten, ?_, fun other => ?_⟩
  · -- The table is the bucket and the others.
    have whole := swapped buckets[bucket]
    rwa [← List.flatten_cons, ← List.drop_eq_getElem_cons within, ← List.flatten_append,
      List.take_append_drop] at whole
  · -- With another list in the bucket the others are the same.
    rw [List.set_eq_take_append_cons_drop, if_pos within, List.flatten_append, List.flatten_cons]
    exact swapped other

/-- New buckets are empty. -/
theorem placed_initBuckets (table : HashTable Item) {sz : Nat} (some_buckets : 0 < sz) :
    Placed getKey hash (table.initBuckets sz) := by
  refine ⟨?_, fun bucket list there item member => ?_⟩
  · rw [numBuckets, initBuckets, List.length_replicate]
    exact some_buckets
  · rw [List.eq_of_mem_replicate (List.mem_of_getElem? there)] at member
    cases member

/-- A bucket can be given another list, of items that belong there. -/
theorem Placed.set {bucket : Nat} {other : List Item} (placed : Placed getKey hash table)
    (belongs : ∀ item ∈ other, place hash table (getKey item) = bucket) (count : Int) :
    Placed getKey hash ⟨table.buckets.set bucket other, count⟩ := by
  have same : (table.buckets.set bucket other).length = table.numBuckets := List.length_set
  refine ⟨by rw [numBuckets, same]; exact placed.some_buckets, fun index list there => ?_⟩
  simp only [place, numBuckets, same]
  -- The bucket that was set has items that belong there, and the others are as they were.
  rw [List.getElem?_set] at there
  split at there
  · rename_i here
    split at there
    · cases there
      exact here ▸ belongs
    · cases there
  · exact placed.placed index list there

/-- An item that is in no bucket is not there, and one that is there is in its own bucket. -/
theorem Placed.mem_iff {item : Item} {list : List Item} (placed : Placed getKey hash table)
    (there : table.buckets[place hash table (getKey item)]? = some list) :
    item ∈ items table ↔ item ∈ list := by
  constructor
  · intro member
    obtain ⟨other, bucket, inside⟩ := List.mem_flatten.mp member
    obtain ⟨index, found⟩ := List.mem_iff_getElem?.mp bucket
    -- The item can only be in the bucket that its key gives.
    rw [placed.placed index other found item inside, found] at there
    cases there
    exact inside
  · exact fun inside => List.mem_flatten.mpr ⟨list, List.mem_of_getElem? there, inside⟩

/-- The table after it has got more items in their buckets. -/
structure Gains (getKey : Item → Key) (hash : Key → BitVec 32) (table : HashTable Item)
    (more : List Item) (after : HashTable Item) : Prop where
  placed : Placed getKey hash after
  numBuckets : after.numBuckets = table.numBuckets
  numItems : after.numItems = table.numItems
  items : (items after).Perm (more ++ items table)

/-- What is gained first and what is gained then is gained. -/
theorem Gains.trans {first second : List Item} {middle after : HashTable Item}
    (there : Gains getKey hash table first middle) (on : Gains getKey hash middle second after) :
    Gains getKey hash table (first ++ second) after := by
  refine ⟨on.placed, on.numBuckets.trans there.numBuckets, on.numItems.trans there.numItems, ?_⟩
  have joined := on.items.trans (there.items.append_left second)
  rw [List.append_assoc]
  exact joined.trans (List.perm_append_comm_assoc second first _)

/-- A table passes its sanity check if its items are where they belong, and are counted. -/
theorem Placed.sane (placed : Placed getKey hash table)
    (count : table.numItems = (items table).length) : table.sanityCheck getKey hash = true := by
  rw [sanityCheck, Bool.and_eq_true, decide_eq_true_eq, List.all_eq_true]
  refine ⟨fun bucket member => ?_, count⟩
  rw [List.all_eq_true]
  intro item inside
  have there := List.mem_zipIdx_iff_getElem?.mp member
  simp [hashValue_eq placed.some_buckets, placed.placed bucket.2 bucket.1 there item inside]

/-- The next full bucket has items, or there is none, and the buckets in front of it have none. -/
theorem nextFullFrom_skips (table : HashTable Item) {turns bucket : Nat}
    (within : bucket + turns = table.numBuckets) :
    (table.buckets.drop bucket).flatten =
        (table.buckets.drop (table.nextFullFrom turns bucket)).flatten ∧
      (table.nextFullFrom turns bucket = table.numBuckets ∨
        ∃ item rest, table.buckets[table.nextFullFrom turns bucket]? = some (item :: rest)) := by
  -- There are as many turns as buckets left, and a bucket that is skipped has no items.
  induction turns generalizing bucket with
  -- There is no bucket left.
  | zero => exact ⟨rfl, .inl within⟩
  | succ turns ih =>
    have inside : bucket < table.buckets.length := by
      simp only [numBuckets] at within
      omega
    have there := List.getElem?_eq_getElem inside
    -- An empty bucket is skipped.
    cases list : table.buckets[bucket] with
    | nil =>
      have skipped : table.nextFullFrom (turns + 1) bucket =
          table.nextFullFrom turns (bucket + 1) := by
        simp [nextFullFrom, there, list]
      rw [skipped, List.drop_eq_getElem_cons inside, list, List.flatten_cons, List.nil_append]
      exact ih (by omega)
    -- A bucket with items is where the search ends.
    | cons item rest =>
      have stays : table.nextFullFrom (turns + 1) bucket = bucket := by
        simp [nextFullFrom, there, list]
      rw [stays, there, list]
      exact ⟨rfl, .inr ⟨item, rest, rfl⟩⟩

/-- An item under its key. -/
abbrev entry (getKey : Item → Key) (item : Item) : Σ _ : Key, Item := ⟨getKey item, item⟩

/-- The table has the items of the map, where they belong, and counts them. -/
structure Represents (getKey : Item → Key) (hash : Key → BitVec 32) (table : HashTable Item)
    (map : AList fun _ : Key => Item) : Prop where
  placed : Placed getKey hash table
  count : table.numItems = (items table).length
  entries : ((items table).map (entry getKey)).Perm map.entries

variable {map : AList fun _ : Key => Item}

/-- No item is in the table twice. -/
theorem Represents.nodup (represents : Represents getKey hash table map) : (items table).Nodup := by
  have keys := (represents.entries.map Sigma.fst).nodup_iff.mpr map.nodupKeys
  rw [List.map_map] at keys
  exact keys.of_map _

/-- A table that has just been made is empty. -/
theorem represents_new (getKey : Item → Key) (hash : Key → BitVec 32) :
    Represents getKey hash new ∅ :=
  ⟨placed_initBuckets _ (by decide), rfl, .refl _⟩

section Search

variable [DecidableEq Key]

/-- What the map has under a key is the item of the table that has the key. -/
theorem Represents.lookup_iff (represents : Represents getKey hash table map) {key : Key}
    {item : Item} : map.lookup key = some item ↔ item ∈ items table ∧ getKey item = key := by
  rw [← Option.mem_def, AList.mem_lookup_iff, ← represents.entries.mem_iff, List.mem_map]
  constructor
  · rintro ⟨other, member, same⟩
    cases same
    exact ⟨member, rfl⟩
  · rintro ⟨member, rfl⟩
    exact ⟨item, member, rfl⟩

/-- `FindInBucket` finds what the map has under the key, in the bucket where it belongs. -/
theorem Represents.findInBucket_eq (represents : Represents getKey hash table map) (key : Key) :
    table.findInBucket getKey (place hash table key) key = some (map.lookup key) := by
  obtain ⟨list, there⟩ := exists_place hash represents.placed.some_buckets key
  -- The search goes through one list.
  have search : table.findInBucket getKey (place hash table key) key =
      some (list.find? fun item => key = getKey item) := by
    simp [findInBucket, there]
  rw [search]
  congr 1
  -- What is found is under the key, and the map has only one item there.
  cases found : list.find? fun item => key = getKey item with
  | some item =>
    have same : key = getKey item := by simpa using List.find?_some found
    subst same
    have inside := List.mem_of_find?_eq_some found
    -- The item is in its bucket, so the map has it.
    exact (represents.lookup_iff.mpr ⟨(represents.placed.mem_iff there).mpr inside, rfl⟩).symm
  | none =>
    -- The map has none, or one that the search would have seen.
    cases held : map.lookup key with
    | none => rfl
    | some item =>
      -- An item with the key would be in the bucket, and would have been found.
      obtain ⟨member, rfl⟩ := represents.lookup_iff.mp held
      have inside := (represents.placed.mem_iff there).mp member
      have missed := List.find?_eq_none.mp found item inside
      simp at missed

/-- `Find` finds what the map has under the key. -/
theorem Represents.find_eq (represents : Represents getKey hash table map) (key : Key) :
    table.find getKey hash key = some (map.lookup key) := by
  simp [find, hashValue_eq represents.placed.some_buckets, represents.findInBucket_eq key]

/-- Is the key in the table? -/
theorem Represents.isInTable_eq (represents : Represents getKey hash table map) (key : Key) :
    table.isInTable getKey hash key = some (map.lookup key).isSome := by
  simp [isInTable, represents.find_eq key]

end Search

variable [DecidableEq Item]

/-- An item can be appended to the bucket that it belongs in. -/
theorem appendTo_gains (placed : Placed getKey hash table) (item : Item) :
    ∃ after, table.appendTo (place hash table (getKey item)) item = some after ∧
      Gains getKey hash table [item] after := by
  -- The bucket is there, since there is at least one.
  obtain ⟨list, there⟩ := exists_place hash placed.some_buckets (getKey item)
  have belongs : ∀ other ∈ list ++ [item],
      place hash table (getKey other) = place hash table (getKey item) := by
    intro other member
    -- All items of the longer list belong in it.
    rcases List.mem_append.mp member with old | new
    · exact placed.placed _ list there other old
    · rw [List.mem_singleton.mp new]
  refine ⟨_, by simp [appendTo, there], placed.set belongs table.numItems, List.length_set, rfl, ?_⟩
  -- The other buckets are as they were.
  obtain ⟨others, before, after⟩ := exists_bucket there
  -- The item is put at the end of its list, and the order of the items does not matter.
  have added : (list ++ [item] ++ others).Perm ([item] ++ (list ++ others)) := by
    rw [List.append_assoc]
    exact List.perm_append_comm_assoc list [item] others
  exact ((after _).trans added).trans (before.symm.append_left [item])

/-- Every item of a bucket of the old table is moved. -/
theorem moveBucket_gains (bucket : List Item) (placed : Placed getKey hash table) :
    ∃ after, moveBucket getKey hash bucket table = some after ∧
      Gains getKey hash table bucket after := by
  -- Each item gives the table that the next one is put into.
  induction bucket generalizing table with
  | nil => exact ⟨table, rfl, placed, rfl, rfl, .refl _⟩
  | cons item rest ih =>
    obtain ⟨middle, put, first⟩ := appendTo_gains placed item
    obtain ⟨after, moved, second⟩ := ih first.placed
    refine ⟨after, ?_, first.trans second⟩
    simp [moveBucket, hashValue_eq placed.some_buckets, put, moved]

/-- Every item of the old table is moved. -/
theorem moveBuckets_gains (buckets : List (List Item)) (placed : Placed getKey hash table) :
    ∃ after, moveBuckets getKey hash buckets table = some after ∧
      Gains getKey hash table buckets.flatten after := by
  induction buckets generalizing table with
  | nil => exact ⟨table, rfl, placed, rfl, rfl, .refl _⟩
  | cons bucket rest ih =>
    obtain ⟨middle, put, first⟩ := moveBucket_gains bucket placed
    obtain ⟨after, moved, second⟩ := ih first.placed
    refine ⟨after, ?_, first.trans second⟩
    simp [moveBuckets, put, moved]

/-- `ReHash` moves every item to where it belongs among more buckets, and loses none. -/
theorem reHash_placed (placed : Placed getKey hash table)
    (count : table.numItems = (items table).length)
    (inRange : InInt (table.numBuckets * IncreaseSizeBy : Nat)) :
    ∃ after, table.reHash getKey hash = some after ∧ Placed getKey hash after ∧
      after.numItems = table.numItems ∧ (items after).Perm (items table) := by
  -- The new buckets are empty, and more than before.
  have bigger : Placed getKey hash (table.initBuckets (table.numBuckets * IncreaseSizeBy)) :=
    placed_initBuckets table (Nat.mul_pos placed.some_buckets (by decide))
  -- The items are moved one bucket after another.
  obtain ⟨after, moved, gains⟩ := moveBuckets_gains table.buckets bigger
  have same : (items after).Perm (items table) := by
    have all := gains.items
    -- Nothing else is in the new buckets.
    simpa only [items, initBuckets, List.flatten_replicate_nil, List.append_nil] using all
  -- The count is not touched, and there are as many items as before.
  have counted : after.numItems = (items after).length := by
    rw [gains.numItems, same.length_eq]
    exact count
  refine ⟨after, ?_, gains.placed, gains.numItems, same⟩
  -- The assertions before and after the move hold.
  rw [reHash, if_pos ⟨placed.sane count, inRange⟩]
  simp [moved, gains.placed.sane counted]

/-- Where the number of buckets stays an int. -/
abbrev InRange (table : HashTable Item) : Prop :=
  table.Crowded → InInt (table.numBuckets * IncreaseSizeBy : Nat)

/-- A table that grows before an insertion still has the items of the map. -/
theorem Represents.makeRoom (represents : Represents getKey hash table map)
    (inRange : table.InRange) :
    ∃ after, table.makeRoom getKey hash = some after ∧ Represents getKey hash after map := by
  rw [HashTable.makeRoom]
  by_cases crowded : table.Crowded
  · obtain ⟨after, grown, placed, same, items⟩ :=
      reHash_placed represents.placed represents.count (inRange crowded)
    refine ⟨after, by rw [if_pos crowded, grown], placed, ?_, ?_⟩
    · rw [same, represents.count, items.length_eq]
    · exact (items.map _).trans represents.entries
  · exact ⟨table, if_neg crowded, represents⟩

variable [DecidableEq Key]

/-- `Insert` puts an item into the map, under a key that it does not have. -/
theorem insert_represents (represents : Represents getKey hash table map) {item : Item}
    (absent : getKey item ∉ map) (inRange : table.InRange) :
    ∃ after, table.insert getKey hash item = some after ∧
      Represents getKey hash after (map.insert (getKey item) item) := by
  -- The first assertion holds, as the key is new.
  have search := represents.isInTable_eq (getKey item)
  rw [AList.lookup_eq_none.mpr absent, Option.isSome_none] at search
  -- Room is made before the item is put in.
  obtain ⟨roomy, grown, there⟩ := represents.makeRoom inRange
  obtain ⟨after, put, gains⟩ := appendTo_gains there.placed item
  -- The item joins those of the table that has room.
  have ends : Represents getKey hash { after with numItems := after.numItems + 1 }
      (map.insert (getKey item) item) := by
    refine ⟨⟨gains.placed.some_buckets, gains.placed.placed⟩, ?_, ?_⟩
    · -- The count is that of the items.
      have longer := gains.items.length_eq
      have count := there.count
      have same := gains.numItems
      simp only [List.length_append, List.length_singleton] at longer
      show after.numItems + 1 = ((items after).length : Int)
      omega
    · -- The entries are those from before and the new one.
      rw [AList.entries_insert_of_notMem absent]
      exact (gains.items.map _).trans (there.entries.cons _)
  refine ⟨_, ?_, ends⟩
  -- The last assertion holds, as the key is there now.
  have searched := ends.isInTable_eq (getKey item)
  rw [AList.lookup_insert, Option.isSome_some] at searched
  simp [insert, search, grown, hashValue_eq there.placed.some_buckets, put, searched]

/-- `Remove` takes the item that the map has under the key. -/
theorem remove_represents (represents : Represents getKey hash table map) {key : Key} {item : Item}
    (present : map.lookup key = some item) :
    ∃ after, table.remove getKey hash key = some (item, after) ∧
      Represents getKey hash after (map.erase key) := by
  have found := represents.findInBucket_eq key
  obtain ⟨list, there⟩ := exists_place hash represents.placed.some_buckets key
  -- The item is in the bucket of its key.
  obtain ⟨member, rfl⟩ := represents.lookup_iff.mp present
  have inside := (represents.placed.mem_iff there).mp member
  obtain ⟨others, before, after⟩ := exists_bucket there
  -- The bucket has the item once, so that it can be removed and is then gone.
  have once : list.Nodup :=
    (before.nodup_iff.mp represents.nodup).sublist (List.sublist_append_left ..)
  have left : (items table).Perm (item :: (list.erase item ++ others)) :=
    before.trans ((List.perm_cons_erase inside).append_right others)
  have ends : Represents getKey hash
      ⟨table.buckets.set (place hash table (getKey item)) (list.erase item), table.numItems - 1⟩
      (map.erase (getKey item)) := by
    -- The items left in the bucket belong there.
    refine ⟨represents.placed.set (fun other member => ?_) _, ?_, ?_⟩
    · exact represents.placed.placed _ list there other (List.mem_of_mem_erase member)
    · -- One item less is counted.
      have fewer := (after (list.erase item)).length_eq
      have whole := left.length_eq
      have count := represents.count
      simp only [items, List.length_cons] at fewer whole count ⊢
      omega
    · -- Erasing the key leaves what is under the other keys.
      have whole := represents.entries.symm.trans (left.map (entry getKey))
      have erased := whole.kerase (a := getKey item) map.nodupKeys
      have cut := @List.kerase_cons_eq _ _ _ (getKey item) (entry getKey item)
        ((list.erase item ++ others).map (entry getKey)) rfl
      rw [List.map_cons, cut] at erased
      exact ((after _).map _).trans erased.symm
  -- The key is gone, as the last assertion says.
  have searched := ends.isInTable_eq (getKey item)
  rw [AList.lookup_erase, Option.isSome_none] at searched
  refine ⟨_, ?_, ends⟩
  simp [remove, hashValue_eq represents.placed.some_buckets, found, present, there,
    removeItem_eq once inside, searched]

end HashTable

namespace HashIterator

variable {Item : Type} {table : HashTable Item} {iterator : HashIterator Item}

/-- What an iterator has yet to visit. -/
def Remains (table : HashTable Item) (iterator : HashIterator Item) : List Item → Prop
  | [] => iterator.IsDone table
  | item :: more => iterator.bucket < table.numBuckets ∧
    ∃ rest, iterator.bucketIter = some (item :: rest) ∧
      more = rest ++ (table.buckets.drop (iterator.bucket + 1)).flatten

/-- An iterator that starts behind some buckets has yet to visit the items of the others. -/
theorem startAt_remains {bucket : Nat} (within : bucket ≤ table.numBuckets) :
    Remains table (startAt table (table.findNextFullBucket bucket))
      (table.buckets.drop bucket).flatten := by
  have turns : bucket + (table.numBuckets - bucket) = table.numBuckets := by omega
  -- Either there is no full bucket left, or the iterator starts at an item.
  obtain ⟨skipped, none | ⟨item, rest, there⟩⟩ := table.nextFullFrom_skips turns
  · rw [skipped, none, List.drop_length]
    exact none
  · obtain ⟨inside, same⟩ := List.getElem?_eq_some_iff.mp there
    rw [skipped, List.drop_eq_getElem_cons inside, same]
    exact ⟨inside, rest, (if_pos inside).trans there, rfl⟩

/-- An iterator that is not done is at an item, and goes on to the others. -/
theorem Remains.next {item : Item} {more : List Item}
    (remains : Remains table iterator (item :: more)) :
    ¬ iterator.IsDone table ∧ iterator.item table = some item ∧
      ∃ after, iterator.next table = some after ∧ Remains table after more := by
  obtain ⟨inside, rest, here, rfl⟩ := remains
  have notDone : ¬ iterator.IsDone table := Nat.ne_of_lt inside
  refine ⟨notDone, by simp [HashIterator.item, notDone, here], ?_⟩
  -- The bucket ends here, and the next full one is looked for, or it goes on.
  cases rest with
  -- The bucket has no more items.
  | nil =>
    exact ⟨_, by simp [HashIterator.next, here], startAt_remains inside⟩
  -- It has more.
  | cons next rest =>
    exact ⟨{ iterator with bucketIter := some (next :: rest) }, by simp [HashIterator.next, here],
      inside, rest, rfl, rfl⟩

/-- A loop visits what remains, and is then done. -/
theorem visits_eq {left : List Item} {turns : Nat} (remains : Remains table iterator left)
    (enough : left.length ≤ turns) : visits table turns iterator = some left := by
  -- Each turn visits one of the items that remain.
  induction left generalizing iterator turns with
  | nil =>
    cases turns <;> exact if_pos remains
  | cons item more ih =>
    obtain ⟨notDone, here, after, next, remains⟩ := remains.next
    obtain ⟨turns, rfl⟩ := Nat.exists_eq_succ_of_ne_zero (Nat.ne_of_gt (Nat.zero_lt_of_lt enough))
    have later := ih remains (Nat.le_of_succ_le_succ enough)
    rw [visits, if_neg notDone]
    simp [here, next, later]

end HashIterator

section Map

variable {Key Item : Type} [DecidableEq Key] [DecidableEq Item]

/-- What the calls that are allowed are for: the map they leave, and what they say. -/
def FiniteMap.step (getKey : Item → Key)
    (state : (AList fun _ : Key => Item) × List (Option Item)) :
    HashEvent Key Item → Option ((AList fun _ : Key => Item) × List (Option Item))
  | .insert item =>
    if getKey item ∈ state.1 then none else some (state.1.insert (getKey item) item, state.2)
  | .remove key =>
    (state.1.lookup key).map fun item => (state.1.erase key, state.2 ++ [some item])
  | .find key => some (state.1, state.2 ++ [state.1.lookup key])

/-- The number of buckets stays an int. -/
def HashTable.StaysInt (state : HashTable Item × List (Option Item)) : HashEvent Key Item → Prop
  | .insert _ => state.1.InRange
  | .remove _ | .find _ => True

instance (state : HashTable Item × List (Option Item)) :
    ∀ event : HashEvent Key Item, Decidable (HashTable.StaysInt state event)
  | .insert _ => inferInstanceAs (Decidable (_ → _))
  | .remove _ | .find _ => .isTrue trivial

/-- One call of a table does to it what it does to the map. -/
theorem HashTable.step_simulates {getKey : Item → Key} {hash : Key → BitVec 32}
    (state : HashTable Item × List (Option Item))
    (twin : (AList fun _ : Key => Item) × List (Option Item)) (event : HashEvent Key Item)
    (next : (AList fun _ : Key => Item) × List (Option Item))
    (related : Represents getKey hash state.1 twin.1 ∧ state.2 = twin.2)
    (staysInt : StaysInt state event) (specified : FiniteMap.step getKey twin event = some next) :
    ∃ after, step getKey hash state event = some after ∧
      Represents getKey hash after.1 next.1 ∧ after.2 = next.2 := by
  obtain ⟨represents, same⟩ := related
  -- The map says what is found, and each call on the table agrees with it.
  cases event with
  -- The map refuses an insertion under a key that it has.
  | insert item =>
    simp only [FiniteMap.step] at specified
    split at specified
    · cases specified
    · rename_i absent
      cases specified
      obtain ⟨after, put, there⟩ := insert_represents represents absent staysInt
      exact ⟨(after, state.2), by simp [step, put], there, same⟩
  -- It refuses to remove a key that it does not have.
  | remove key =>
    obtain ⟨item, present, rfl⟩ := Option.map_eq_some_iff.mp specified
    obtain ⟨after, removed, there⟩ := remove_represents represents present
    exact ⟨(after, state.2 ++ [some item]), by simp [step, removed], there, by rw [same]⟩
  -- A search changes neither of them.
  | find key =>
    cases specified
    refine ⟨(state.1, state.2 ++ [twin.1.lookup key]), ?_, represents, by rw [same]⟩
    simp [step, represents.find_eq key]

/--
The hash table is a finite map.

Whatever allowed calls are made on an empty table, for whatever keys and hash function: no assertion
fails, removals and searches say what the map says, the items of the map are counted, each is in
the bucket that `HashValue` gives for its key, every later search finds what the map has, and an
iterator visits the items of the map, each once, and is then done.
-/
theorem hashTable_isMap (getKey : Item → Key) (hash : Key → BitVec 32)
    (events : List (HashEvent Key Item)) (map : AList fun _ : Key => Item)
    (found : List (Option Item))
    (allowed : replay (FiniteMap.step getKey) (∅, []) events = some (map, found))
    (staysInt : EveryStep (HashTable.step getKey hash) HashTable.StaysInt (.new, []) events) :
    ∃ table : HashTable Item,
      replay (HashTable.step getKey hash) (.new, []) events = some (table, found) ∧
      table.numItems = map.entries.length ∧
      (∀ bucket list, table.buckets[bucket]? = some list →
        ∀ item ∈ list, table.hashValue hash (getKey item) = some bucket) ∧
      table.sanityCheck getKey hash = true ∧
      (∀ key, table.find getKey hash key = some (map.lookup key)) ∧
      ∃ visited, HashIterator.visits table map.entries.length (.new table) = some visited ∧
        (visited.map (HashTable.entry getKey)).Perm map.entries := by
  obtain ⟨⟨table, said⟩, ran, represents, rfl⟩ := replay_simulates HashTable.step_simulates
    ⟨HashTable.represents_new getKey hash, rfl⟩ staysInt allowed
  -- The table has as many items as the map.
  have length : table.items.length = map.entries.length := by
    rw [← represents.entries.length_eq, List.length_map]
  -- A new iterator has all items before it.
  have remains : HashIterator.Remains table (.new table) table.items :=
    HashIterator.startAt_remains (Nat.zero_le _)
  refine ⟨table, ran, by rw [represents.count, length], fun bucket list there item member => ?_,
    represents.placed.sane represents.count, represents.find_eq, table.items,
    HashIterator.visits_eq remains (Nat.le_of_eq length), represents.entries⟩
  -- Every item is in the bucket of its hash value.
  rw [HashTable.hashValue_eq represents.placed.some_buckets,
    represents.placed.placed bucket list there item member]

/-- Keys that collide, a table that grows, and an item that takes the place of a removed one. -/
theorem hashTable_isMap_grown : ∃ table : HashTable Nat,
    replay (HashTable.step (· / 10) (BitVec.ofNat 32 <| · / 2)) (.new, [])
      ([1, 11, 21, 31, 41, 51, 61, 71, 81, 91, 101, 111, 121].map .insert ++
        [.remove 3, .find 3, .insert 35, .find 3]) = some (table, [some 31, none, some 35]) ∧
      table.numItems = 13 := by
  obtain ⟨table, ran, count, -⟩ := hashTable_isMap (· / 10) (BitVec.ofNat 32 <| · / 2)
    ([1, 11, 21, 31, 41, 51, 61, 71, 81, 91, 101, 111, 121].map .insert ++
        [.remove 3, .find 3, .insert 35, .find 3]) _ [some 31, none, some 35] rfl
    (by decide +kernel)
  exact ⟨table, ran, count⟩

end Map

end Nachos
