import Nachos.Lib.List
import Nachos.Theory.Bytes

/-! The hash table: an array of buckets that grows, and the iterator over its items. -/

namespace Nachos

/-- How many buckets a table starts with. -/
abbrev InitialBuckets : Nat := 4

/-- From how many items for each bucket on a table grows. -/
abbrev ResizeRatio : Int := 3

/-- How many times as many buckets a table has after it has grown. -/
abbrev IncreaseSizeBy : Nat := 4

/--
A hash table.

A bucket is the sequence of items that its list holds. The number of buckets is set together with
the array, so it is the length of the array. Every item has a list element of its own, and memory
holds fewer of these than an int can count.
-/
structure HashTable (Item : Type) where
  buckets : List (List Item)
  numItems : Int

namespace HashTable

variable {Key Item : Type}

/-- The number of buckets. -/
abbrev numBuckets (table : HashTable Item) : Nat := table.buckets.length

/-- `InitBuckets`. -/
def initBuckets (table : HashTable Item) (sz : Nat) : HashTable Item :=
  { table with buckets := .replicate sz [] }

/-- The constructor. -/
def new : HashTable Item := initBuckets ⟨[], 0⟩ InitialBuckets

section Hash

variable (getKey : Item → Key) (hash : Key → BitVec 32)

/-- `HashValue`, with its assertion. -/
def hashValue (table : HashTable Item) (key : Key) : Option Nat :=
  let result := (hash key).toNat % table.numBuckets
  if result < table.numBuckets then some result else none

/-- `SanityCheck`: does the table pass all its assertions? The lists of the buckets always do. -/
def sanityCheck (table : HashTable Item) : Bool :=
  (table.buckets.zipIdx.all fun (bucket, i) =>
    bucket.all fun item => table.hashValue hash (getKey item) = some i) &&
  table.numItems = table.buckets.flatten.length

variable [DecidableEq Item]

/-- Append an item to a bucket. -/
def appendTo (table : HashTable Item) (bucket : Nat) (item : Item) : Option (HashTable Item) := do
  let list ← table.buckets[bucket]?
  let list ← appendItem item list
  return { table with buckets := table.buckets.set bucket list }

/-- The inner loop of `ReHash`: a bucket of the old table is emptied, item by item. -/
def moveBucket : List Item → HashTable Item → Option (HashTable Item)
  | [], table => some table
  | item :: rest, table => do
    let bucket ← table.hashValue hash (getKey item)
    let table ← table.appendTo bucket item
    moveBucket rest table

/-- The loop of `ReHash` over the buckets of the old table. -/
def moveBuckets : List (List Item) → HashTable Item → Option (HashTable Item)
  | [], table => some table
  | bucket :: rest, table => do
    let table ← moveBucket getKey hash bucket table
    moveBuckets rest table

/-- `ReHash`. A number of buckets that is no int stops us. -/
def reHash (table : HashTable Item) : Option (HashTable Item) := do
  if table.sanityCheck getKey hash ∧ InInt (table.numBuckets * IncreaseSizeBy : Nat) then
    -- The count of items stays as it is while the items move.
    let bigger := table.initBuckets (table.numBuckets * IncreaseSizeBy)
    let moved ← moveBuckets getKey hash table.buckets bigger
    if moved.sanityCheck getKey hash then return moved else none
  else none

/-- Is the table to grow before the next item is put into it? -/
abbrev Crowded (table : HashTable Item) : Prop :=
  ResizeRatio ≤ table.numItems.tdiv table.numBuckets

/-- The part of `Insert` that makes room for the item. -/
def makeRoom (table : HashTable Item) : Option (HashTable Item) :=
  if table.Crowded then table.reHash getKey hash else some table

variable [DecidableEq Key]

/-- `FindInBucket`: the item, or nothing if it is not found. -/
def findInBucket (table : HashTable Item) (bucket : Nat) (key : Key) : Option (Option Item) := do
  let list ← table.buckets[bucket]?
  return list.find? fun item => key = getKey item

/-- `Find`. -/
def find (table : HashTable Item) (key : Key) : Option (Option Item) := do
  let bucket ← table.hashValue hash key
  table.findInBucket getKey bucket key

/-- `IsInTable`. -/
def isInTable (table : HashTable Item) (key : Key) : Option Bool :=
  (table.find getKey hash key).map Option.isSome

/-- `Insert`. -/
def insert (table : HashTable Item) (item : Item) : Option (HashTable Item) := do
  let key := getKey item
  if ← table.isInTable getKey hash key then none
  else
    -- The bucket is found after the table may have grown, so it is one of the new ones.
    let table ← table.makeRoom getKey hash
    let bucket ← table.hashValue hash key
    let table ← table.appendTo bucket item
    let table := { table with numItems := table.numItems + 1 }
    -- The last assertion of the source: the item can be found now.
    if ← table.isInTable getKey hash key then return table else none

/-- `Remove`. -/
def remove (table : HashTable Item) (key : Key) : Option (Item × HashTable Item) := do
  let bucket ← table.hashValue hash key
  let found ← table.findInBucket getKey bucket key
  -- Removing what is not in the table trips an assertion.
  let item ← found
  let list ← table.buckets[bucket]?
  let list ← removeItem item list
  let table : HashTable Item := ⟨table.buckets.set bucket list, table.numItems - 1⟩
  if ← table.isInTable getKey hash key then none else return (item, table)

end Hash

/-- The loop of `FindNextFullBucket`, which has as many turns as there are buckets left. -/
def nextFullFrom (table : HashTable Item) : Nat → Nat → Nat
  | 0, bucket => bucket
  | turns + 1, bucket =>
    if (table.buckets[bucket]?).any List.isEmpty then table.nextFullFrom turns (bucket + 1)
    else bucket

/-- `FindNextFullBucket`. -/
def findNextFullBucket (table : HashTable Item) (bucket : Nat) : Nat :=
  table.nextFullFrom (table.numBuckets - bucket) bucket

end HashTable

/-- An iterator: the bucket it is in, and what the iterator over this bucket has yet to visit. -/
structure HashIterator (Item : Type) where
  bucket : Nat
  bucketIter : Option (List Item)

namespace HashIterator

variable {Item : Type} (table : HashTable Item)

/-- An iterator that starts in a bucket, if there is such a bucket. -/
def startAt (bucket : Nat) : HashIterator Item :=
  ⟨bucket, if bucket < table.numBuckets then table.buckets[bucket]? else none⟩

/-- The constructor. -/
def new : HashIterator Item := startAt table (table.findNextFullBucket 0)

/-- `IsDone`. -/
abbrev IsDone (iterator : HashIterator Item) : Prop := iterator.bucket = table.numBuckets

/-- `Item`, with its assertion and that of the iterator over the bucket. -/
def item (iterator : HashIterator Item) : Option Item :=
  if iterator.IsDone table then none else iterator.bucketIter.bind List.head?

/-- `Next`. Neither iterator can go on when it is at its end. -/
def next (iterator : HashIterator Item) : Option (HashIterator Item) :=
  match iterator.bucketIter with
  | none | some [] => none
  | some (_ :: rest) =>
    -- The end of a bucket's list moves on to the next bucket that is not empty.
    if rest.isEmpty then some (startAt table (table.findNextFullBucket (iterator.bucket + 1)))
    else some { iterator with bucketIter := some rest }

/-- What a loop visits that goes on until the iterator is done, if that takes no more turns. -/
def visits : Nat → HashIterator Item → Option (List Item)
  | 0, iterator => if iterator.IsDone table then some [] else none
  | turns + 1, iterator =>
    if iterator.IsDone table then some []
    else do
      let item ← iterator.item table
      let iterator ← iterator.next table
      let rest ← visits turns iterator
      return item :: rest

end HashIterator

/-- What a program does with a table. -/
inductive HashEvent (Key Item : Type)
  | insert (item : Item)
  | remove (key : Key)
  | find (key : Key)

/-- One call of a table, and the items that removals have given back and searches have found. -/
def HashTable.step {Key Item : Type} [DecidableEq Key] [DecidableEq Item] (getKey : Item → Key)
    (hash : Key → BitVec 32) (state : HashTable Item × List (Option Item)) :
    HashEvent Key Item → Option (HashTable Item × List (Option Item))
  | .insert item => do
    let table ← state.1.insert getKey hash item
    return (table, state.2)
  | .remove key => do
    let (item, table) ← state.1.remove getKey hash key
    return (table, state.2 ++ [some item])
  | .find key => do
    let found ← state.1.find getKey hash key
    return (state.1, state.2 ++ [found])

end Nachos
