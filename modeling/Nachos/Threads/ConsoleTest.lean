import Nachos.Userprog.SynchConsole
import Nachos.Userprog.SynchConsoleOutput

/-! The test that echoes what is typed, up to the end of the file. -/

namespace Nachos

/-- Where the test stands: in front of a call of the console, or inside it. -/
inductive EchoStage
  | read
  | reading
  | echo (ch : Byte)
  | echoing
  | done

/-- The test, with the keyboard and the display that nobody else uses. -/
structure ConsoleTest where
  synchConsoleIn : SynchConsoleSystem Unit
  synchConsoleOut : SynchOutputSystem Unit
  stage : EchoStage

/-- What can happen: the test makes its next call, or something goes on at one of the devices. -/
inductive ConsoleTestEvent
  | call
  | keyboard (event : SynchConsoleEvent Unit)
  | display (event : SynchOutputEvent Unit)

/-- What `GetChar` returns in this step, if it does: the end of its `Release` is its end. -/
def SynchConsoleSystem.returns (sys : SynchConsoleSystem Unit) :
    SynchConsoleEvent Unit → Option Byte
  | .lock (.v ()) =>
    match sys.stage () with
    | .leaving ch => some ch
    | _ => none
  | _ => none

/-- Whether `PutChar` returns in this step. -/
def SynchOutputSystem.returns (sys : SynchOutputSystem Unit) : SynchOutputEvent Unit → Bool
  | .lock (.v ()) =>
    match sys.stage () with
    | .leaving => true
    | _ => false
  | _ => false

namespace ConsoleTest

/-- The start, with the file that stands for the keyboard. -/
def start (readFile : List Byte) : ConsoleTest :=
  { synchConsoleIn := .new readFile, synchConsoleOut := .new, stage := .read }

/-- The loop behind `GetChar`, if it has returned: echo the character, or end at an EOF. -/
def got (stage : EchoStage) : Option Byte → EchoStage
  | some ch => if ch.toInt ≠ eof then .echo ch else .done
  | none => stage

/-- One step of the test or of a device. Only the test makes calls. -/
def step (test : ConsoleTest) : ConsoleTestEvent → Option ConsoleTest
  | .call =>
    match test.stage with
    | .read =>
      (test.synchConsoleIn.step (.call ())).map fun synchConsoleIn =>
        { test with synchConsoleIn, stage := .reading }
    | .echo ch =>
      (test.synchConsoleOut.step (.call () ch)).map fun synchConsoleOut =>
        { test with synchConsoleOut, stage := .echoing }
    | .reading | .echoing | .done => none
  | .keyboard (.call _) | .display (.call _ _) => none
  | .keyboard event =>
    (test.synchConsoleIn.step event).map fun synchConsoleIn =>
      { test with synchConsoleIn, stage := got test.stage (test.synchConsoleIn.returns event) }
  | .display event =>
    (test.synchConsoleOut.step event).map fun synchConsoleOut =>
      { test with
        synchConsoleOut
        stage := if test.synchConsoleOut.returns event then .read else test.stage }

end ConsoleTest

end Nachos
