import Mathlib.Data.List.Basic

/-! The singly linked lists, as lists: what they assert, and where a sorted one puts an item. -/

namespace Nachos

variable {Item : Type}

/-- `List::RemoveFront`, which asserts that the list is not empty. -/
def removeFront : List Item → Option (Item × List Item)
  | [] => none
  | item :: rest => some (item, rest)

/-- `List::Append`, with its assertion that the item is there. -/
def appendItem [DecidableEq Item] (item : Item) (list : List Item) : Option (List Item) :=
  if item ∈ list ++ [item] then some (list ++ [item]) else none

/-- `List::Remove`: take the item off, which must be there before and not after. -/
def removeItem [DecidableEq Item] (item : Item) (list : List Item) : Option (List Item) :=
  if item ∈ list ∧ item ∉ list.erase item then some (list.erase item) else none

/-- `List::findByComp`: the first item that compares, where nothing stands for the null pointer. -/
def findByComp (comp : Item → Bool) (list : List Item) : Option Item := list.find? comp

/-- An item can always be appended. -/
@[simp] theorem appendItem_eq [DecidableEq Item] (item : Item) (list : List Item) :
    appendItem item list = some (list ++ [item]) := by
  simp [appendItem]

/-- The walk of `SortedList::Insert`: in front of the first element that is greater. -/
def insertWalk (compare : Item → Item → Int) (item : Item) : List Item → List Item
  | [] => [item]
  | first :: rest =>
    if compare item first < 0 then item :: first :: rest
    else first :: insertWalk compare item rest

/-- `SortedList::Insert`, which asserts that the item is not in the list. -/
def sortedInsert [DecidableEq Item] (compare : Item → Item → Int) (item : Item)
    (list : List Item) : Option (List Item) :=
  if item ∈ list then none else some (insertWalk compare item list)

end Nachos
