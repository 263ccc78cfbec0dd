import Nachos.Theory.Bytes

/-! Bitmaps: an array of bits kept in machine words, used to allocate frames and sectors. -/

namespace Nachos

/-- Divide and round up. -/
def divRoundUp (n s : Nat) : Nat := n / s + if n % s > 0 then 1 else 0

/-- Number of bits in a word of bitmap storage. -/
abbrev bitsInWord : Nat := 32

/-- The bits, in as many words as it takes to hold them. -/
structure Bitmap where
  numBits : Nat
  map : List Word
  words : map.length = divRoundUp numBits bitsInWord

namespace Bitmap

/-- The constructor: every bit is clear. -/
def new (numItems : Nat) : Bitmap where
  numBits := numItems
  map := List.replicate (divRoundUp numItems bitsInWord) 0
  words := List.length_replicate

/-- The word that holds a bit. -/
def word (bitmap : Bitmap) (which : Nat) : Word := bitmap.map.getD (which / bitsInWord) 0

/-- The word in which only this bit is set. -/
def mask (which : Nat) : Word := 1#32 <<< (which % bitsInWord)

/-- Is the bit set? -/
def bit (bitmap : Bitmap) (which : Nat) : Bool := (bitmap.word which &&& mask which) != 0

/-- Replace the word that holds a bit. -/
def setWord (bitmap : Bitmap) (which : Nat) (word : Word) : Bitmap where
  numBits := bitmap.numBits
  map := bitmap.map.set (which / bitsInWord) word
  words := by rw [List.length_set, bitmap.words]

/-- Set a bit. -/
def setBit (bitmap : Bitmap) (which : Nat) : Bitmap :=
  bitmap.setWord which (bitmap.word which ||| mask which)

/-- Clear a bit. -/
def clearBit (bitmap : Bitmap) (which : Nat) : Bitmap :=
  bitmap.setWord which (bitmap.word which &&& ~~~mask which)

/-- The numbers that `Mark`, `Clear` and `Test` accept. -/
abbrev InRange (bitmap : Bitmap) (which : Int) : Prop := 0 ≤ which ∧ which < bitmap.numBits

/-- `Test`, behind its assertion. -/
def test (bitmap : Bitmap) (which : Int) : Option Bool :=
  if bitmap.InRange which then some (bitmap.bit which.toNat) else none

/-- `Mark`, between its two assertions. -/
def mark (bitmap : Bitmap) (which : Int) : Option Bitmap :=
  if bitmap.InRange which then
    let marked := bitmap.setBit which.toNat
    if marked.test which = some true then some marked else none
  else none

/-- `Clear`, between its two assertions. -/
def clear (bitmap : Bitmap) (which : Int) : Option Bitmap :=
  if bitmap.InRange which then
    let cleared := bitmap.clearBit which.toNat
    if cleared.test which = some false then some cleared else none
  else none

/-- The loop of `FindAndSet` over the bits still to look at. -/
def findAndSetFrom (bitmap : Bitmap) : List Nat → Option (Int × Bitmap)
  | [] => some (-1, bitmap)
  | i :: rest => do
    if ← bitmap.test i then bitmap.findAndSetFrom rest
    else return (i, ← bitmap.mark i)

/-- `FindAndSet`: take the first clear bit, or answer -1. -/
def findAndSet (bitmap : Bitmap) : Option (Int × Bitmap) :=
  bitmap.findAndSetFrom (List.range bitmap.numBits)

/-- `NumClear`: how many bits are clear. -/
def numClear (bitmap : Bitmap) : Nat :=
  -- The loop tests each index below numBits, where Test's assertion cannot fail.
  (List.range bitmap.numBits).countP fun i => !bitmap.bit i

/-- The loop of the constructor that clears each bit, once the words are all 0. -/
def clearEach (bitmap : Bitmap) : List Nat → Option Bitmap
  | [] => some bitmap
  | i :: rest => do (← bitmap.clear i).clearEach rest

/-- The constructor, with its assertion and those of the calls that it makes. -/
def construct (numItems : Int) : Option Bitmap :=
  if numItems > 0 then (new numItems.toNat).clearEach (List.range numItems.toNat) else none

/-- The loop of `NumClear` over the bits still to look at, with the assertions of its calls. -/
def countFrom (bitmap : Bitmap) : List Nat → Int → Option Int
  | [], count => some count
  | i :: rest, count => do
    if ← bitmap.test i then bitmap.countFrom rest count else bitmap.countFrom rest (count + 1)

/-- `NumClear`, as it is computed. -/
def countClear (bitmap : Bitmap) : Option Int :=
  bitmap.countFrom (List.range bitmap.numBits) 0

end Bitmap

/-- What a program does to a bitmap. -/
inductive BitmapEvent
  | mark (which : Int)
  | clear (which : Int)
  | findAndSet

/-- One call that changes a bitmap, and what `FindAndSet` has answered so far. -/
def Bitmap.step (state : Bitmap × List Int) : BitmapEvent → Option (Bitmap × List Int)
  | .mark which => do
    let bitmap ← state.1.mark which
    return (bitmap, state.2)
  | .clear which => do
    let bitmap ← state.1.clear which
    return (bitmap, state.2)
  | .findAndSet => do
    let (answer, bitmap) ← state.1.findAndSet
    return (bitmap, state.2 ++ [answer])

end Nachos
