import Nachos.Theory.Bytes

/-! The keyboard, which buffers one character, and the display, which is busy with one. -/

namespace Nachos

/-- The value that the console compares its characters with. -/
def eof : Int := -1

/-- The keyboard, and the file of the host that simulates it. -/
structure ConsoleInput where
  -- The bytes of the file that are not read yet.
  readFile : List Byte
  -- The character to be read, if there is one. Otherwise EOF.
  incoming : Byte
  -- How many read interrupts are scheduled.
  pending : Nat
  numConsoleCharsRead : Nat

/-- The char that EOF is stored as. -/
def eofChar : Byte := BitVec.ofInt 8 eof

/-- The constructor: start polling for incoming keystrokes. -/
def ConsoleInput.new (readFile : List Byte) : ConsoleInput :=
  { readFile, incoming := eofChar, pending := 1, numConsoleCharsRead := 0 }

/--
`CallBack`, if its assertion holds: the keyboard then, and whether `callWhenAvail` is called.

The host says whether anything can be read, which is so at the end of a file as well.
-/
def ConsoleInput.callBack (console : ConsoleInput) (pollFile : Bool) :
    Option (ConsoleInput × Bool) :=
  if console.incoming.toInt = eof then
    if pollFile then
      match console.readFile with
      -- The end of the file: nothing is scheduled, but the reader is woken.
      | [] => some (console, true)
      | c :: rest =>
        some ({ console with
          readFile := rest
          incoming := c
          numConsoleCharsRead := console.numConsoleCharsRead + 1 }, true)
    else some ({ console with pending := console.pending + 1 }, false)
  else none

/-- The interrupt is taken off the list before its handler runs. -/
def ConsoleInput.interrupt (console : ConsoleInput) (pollFile : Bool) :
    Option (ConsoleInput × Bool) :=
  { console with pending := console.pending - 1 }.callBack pollFile

/-- `GetChar`, in which no interrupt can come: the clock stands still. -/
def ConsoleInput.getChar (console : ConsoleInput) : Byte × ConsoleInput :=
  let ch := console.incoming
  -- Schedule when the next character will arrive.
  let pending := if ch.toInt ≠ eof then console.pending + 1 else console.pending
  (ch, { console with pending, incoming := eofChar })

@[simp] theorem ConsoleInput.toInt_eofChar : eofChar.toInt = eof := by decide

/-- The display, and the file of the host that simulates it. -/
structure ConsoleOutput where
  -- The bytes written to the file so far.
  writeFile : List Byte
  -- A PutChar is in progress.
  putBusy : Bool
  -- How many write interrupts are scheduled.
  pending : Nat
  numConsoleCharsWritten : Nat

/-- The constructor: nothing is written yet. -/
def ConsoleOutput.new : ConsoleOutput :=
  { writeFile := [], putBusy := false, pending := 0, numConsoleCharsWritten := 0 }

/-- `PutChar`, if its assertion holds: write the character, and schedule the interrupt. -/
def ConsoleOutput.putChar (console : ConsoleOutput) (ch : Byte) : Option ConsoleOutput :=
  if console.putBusy then none
  else
    some { console with
      writeFile := console.writeFile ++ [ch], putBusy := true, pending := console.pending + 1 }

/-- The interrupt: `CallBack`, up to the call of `callWhenDone`. -/
def ConsoleOutput.interrupt (console : ConsoleOutput) : ConsoleOutput :=
  { console with
    pending := console.pending - 1
    putBusy := false
    numConsoleCharsWritten := console.numConsoleCharsWritten + 1 }

end Nachos
