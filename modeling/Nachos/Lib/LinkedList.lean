import Nachos.Theory.Linked

/-! The singly linked lists, pointer by pointer: every element is allocated, linked and freed. -/

namespace Nachos

/-- One element of a list. -/
abbrev ListElement : Type → Type := Linked.Node

/--
A list: its first and last element, how many it has, and the elements that are allocated.

Memory holds fewer elements than an int can count.
-/
structure LinkedList (Item : Type) where
  heap : Linked.Heap Item
  first : Option Nat
  last : Option Nat
  numInList : Int

namespace LinkedList

variable {Item : Type}

/-- The constructor. -/
def new (heap : Linked.Heap Item) : LinkedList Item := ⟨heap, none, none, 0⟩

/-- The element that a pointer points to. A null pointer, or one to a freed element, stops us. -/
def deref (list : LinkedList Item) (ptr : Option Nat) : Option (Nat × ListElement Item) := do
  let address ← ptr
  let element ← list.heap.lookup address
  return (address, element)

/-- `new ListElement`, at an address that is not in use. -/
def allocate (list : LinkedList Item) (element : Nat) (item : Item) : LinkedList Item :=
  { list with heap := list.heap.insert element ⟨item, none⟩ }

/-- Set the next pointer of the element that a pointer points to. -/
def setNext (list : LinkedList Item) (ptr next : Option Nat) : Option (LinkedList Item) := do
  let (address, element) ← list.deref ptr
  return { list with heap := list.heap.insert address { element with next } }

/-- `delete`. -/
def free (list : LinkedList Item) (element : Nat) : LinkedList Item :=
  { list with heap := list.heap.erase element }

/-- `IsEmpty`. -/
abbrev IsEmpty (list : LinkedList Item) : Prop := list.numInList = 0

variable [DecidableEq Item]

/-- The loop of `IsInList`. More turns than there are elements would never end. -/
def findLoop (list : LinkedList Item) (item : Item) : Nat → Option Nat → Option Bool
  | _, none => some false
  | 0, some _ => none
  | turns + 1, ptr => do
    let (_, element) ← list.deref ptr
    if item = element.item then return true else list.findLoop item turns element.next

/-- `List::IsInList`. -/
def isInList (list : LinkedList Item) (item : Item) : Option Bool :=
  list.findLoop item list.heap.keys.length list.first

/-- The part of an insertion that makes a new element the only one. -/
def putOnly (list : LinkedList Item) (element : Nat) : LinkedList Item :=
  { list with first := some element, last := some element }

/-- The part of an insertion that puts a new element in front of the first one. -/
def putFirst (list : LinkedList Item) (element : Nat) : Option (LinkedList Item) := do
  let list ← list.setNext (some element) list.first
  return { list with first := some element }

/-- The part of an insertion that puts a new element behind the last one. -/
def putLast (list : LinkedList Item) (element : Nat) : Option (LinkedList Item) := do
  let list ← list.setNext list.last (some element)
  return { list with last := some element }

/-- The end of an insertion: the element is counted, and its item is asserted to be there. -/
def counted (list : LinkedList Item) (item : Item) : Option (LinkedList Item) := do
  let list := { list with numInList := list.numInList + 1 }
  if ← list.isInList item then return list else none

/-- `List::Append`, for an element that `new` puts at this address. -/
def append (list : LinkedList Item) (element : Nat) (item : Item) : Option (LinkedList Item) := do
  let list := list.allocate element item
  let list ← if list.IsEmpty then some (list.putOnly element) else list.putLast element
  list.counted item

/-- `List::Prepend`. -/
def prepend (list : LinkedList Item) (element : Nat) (item : Item) : Option (LinkedList Item) := do
  let list := list.allocate element item
  -- Unlike `Append`, this asserts that the item is not there yet.
  if ← list.isInList item then none
  else
    let list ← if list.IsEmpty then some (list.putOnly element) else list.putFirst element
    list.counted item

/-- `List::RemoveFront`. -/
def removeFront (list : LinkedList Item) : Option (Item × LinkedList Item) := do
  if list.IsEmpty then none
  else
    let (address, element) ← list.deref list.first
    let thing := element.item
    -- The only element leaves an empty list, which has no ends.
    let list := if list.first = list.last then { list with first := none, last := none }
      else { list with first := element.next }
    let list := { list with numInList := list.numInList - 1 }
    return (thing, list.free address)

/-- The loop of `Remove`, from the element behind the first one. -/
def removeLoop (list : LinkedList Item) (item : Item) :
    Nat → Option Nat → Option Nat → Option (LinkedList Item)
  -- The item was to be found.
  | _, _, none => none
  | 0, _, some _ => none
  | turns + 1, prev, ptr => do
    let (address, element) ← list.deref ptr
    if item = element.item then
      let list ← list.setNext prev element.next
      let (_, before) ← list.deref prev
      let list := if before.next = none then { list with last := prev } else list
      let list := list.free address
      return { list with numInList := list.numInList - 1 }
    else list.removeLoop item turns ptr element.next

/-- `List::Remove`. -/
def remove (list : LinkedList Item) (item : Item) : Option (LinkedList Item) := do
  if ← list.isInList item then
    let (_, head) ← list.deref list.first
    let list ← if item = head.item then do
        let (removed, list) ← list.removeFront
        if item = removed then some list else none
      else list.removeLoop item list.heap.keys.length list.first head.next
    -- An item that was in the list twice is still there, and trips the assertion.
    if ← list.isInList item then none else return list
  else none

/-- The loop of `SanityCheck`, which asserts that it does not find too many elements. -/
def sanityLoop (list : LinkedList Item) : Nat → Option Nat → Option Nat
  | 0, ptr => if ptr = list.last then some 0 else none
  | turns + 1, ptr => do
    if ptr = list.last then return turns + 1
    else
      let (_, element) ← list.deref ptr
      list.sanityLoop turns element.next

/-- `List::SanityCheck`: does it pass all its assertions? -/
def sanityCheck (list : LinkedList Item) : Bool :=
  if list.first = none then list.numInList = 0 ∧ list.last = none
  else
    let ends := (list.deref list.last).any fun (_, element) => element.next = none
    if list.first = list.last then list.numInList = 1 ∧ ends
    else list.sanityLoop (list.numInList.toNat - 1) list.first = some 0 ∧ ends

end LinkedList

/-- What a program does with a list. An insertion comes with the address of its new element. -/
inductive ListEvent (Item : Type)
  | append (element : Nat) (item : Item)
  | prepend (element : Nat) (item : Item)
  | removeFront
  | remove (item : Item)

/-- One call of a list. -/
def LinkedList.step {Item : Type} [DecidableEq Item] (list : LinkedList Item) :
    ListEvent Item → Option (LinkedList Item)
  | .append element item => list.append element item
  | .prepend element item => list.prepend element item
  | .removeFront => list.removeFront.map Prod.snd
  | .remove item => list.remove item

namespace SortedList

variable {Item : Type} (compare : Item → Item → Int)

/--
The loop of `SortedList::Insert`, which looks for an element that the new one goes in front of.

The insertion returns from there, or else nothing says that the new element goes to the end.
-/
def insertLoop (list : LinkedList Item) (element : Nat) (item : Item) :
    Nat → Option Nat → Option (Option (LinkedList Item))
  | 0, _ => none
  | turns + 1, ptr => do
    let (_, here) ← list.deref ptr
    if here.next = none then return none
    else
      let (_, following) ← list.deref here.next
      if compare item following.item < 0 then
        -- The one insertion that does not assert that the item is there.
        let list ← list.setNext (some element) here.next
        let list ← list.setNext ptr (some element)
        return some { list with numInList := list.numInList + 1 }
      else insertLoop list element item turns here.next

variable [DecidableEq Item]

/-- `SortedList::Insert`. -/
def insert (list : LinkedList Item) (element : Nat) (item : Item) : Option (LinkedList Item) := do
  let list := list.allocate element item
  if ← list.isInList item then none
  else if list.IsEmpty then (list.putOnly element).counted item
  else
    let (_, head) ← list.deref list.first
    if compare item head.item < 0 then
      let list ← list.putFirst element
      list.counted item
    else
      match ← insertLoop compare list element item list.heap.keys.length list.first with
      | some list => return list
      | none =>
        let list ← list.putLast element
        list.counted item

/-- The loop of `SortedList::SanityCheck`. -/
def sortedLoop (list : LinkedList Item) : Nat → Item → Option Nat → Bool
  | _, _, none => true
  | 0, _, some _ => false
  | turns + 1, prev, ptr =>
    match list.deref ptr with
    | some (_, element) =>
      compare prev element.item ≤ 0 && sortedLoop list turns element.item element.next
    | none => false

/-- `SortedList::SanityCheck`: does the list pass all its assertions? -/
def sanityCheck (list : LinkedList Item) : Bool :=
  list.sanityCheck &&
    if list.first ≠ list.last then
      match list.deref list.first with
      | some (_, element) =>
        sortedLoop compare list list.heap.keys.length element.item element.next
      | none => false
    else true

end SortedList

/-- What a program does with a sorted list. -/
inductive SortedEvent (Item : Type)
  | insert (element : Nat) (item : Item)
  | removeFront

/-- One call of a sorted list, and the items that it has given back so far. -/
def SortedList.step {Item : Type} [DecidableEq Item] (compare : Item → Item → Int)
    (state : LinkedList Item × List Item) : SortedEvent Item → Option (LinkedList Item × List Item)
  | .insert element item => do
    let list ← insert compare state.1 element item
    return (list, state.2)
  | .removeFront => do
    let (thing, list) ← state.1.removeFront
    return (list, state.2 ++ [thing])

end Nachos
