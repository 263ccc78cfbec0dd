import Nachos.Network.PostOffice

/-! The test in which two machines greet each other over the network and acknowledge it. -/

namespace Nachos

/-- The text `Hello there!`, with the zero at its end. -/
def helloText : List Byte :=
  [0x48, 0x65, 0x6c, 0x6c, 0x6f, 0x20, 0x74, 0x68, 0x65, 0x72, 0x65, 0x21, 0]

/-- The text `Got it!`, with the zero at its end. -/
def ackText : List Byte := [0x47, 0x6f, 0x74, 0x20, 0x69, 0x74, 0x21, 0]

/-- The header of the greeting: for box 0, with box 1 to reply to. -/
def helloHdr : MailHeader := ⟨0, 1, .ofNat 32 helloText.length⟩

/-- The header of the acknowledgement, for the box that the greeting asks for. -/
def ackHdr (replyTo : Word) : MailHeader := ⟨replyTo, 1, .ofNat 32 ackText.length⟩

/-- Only these two machines take part. -/
abbrev TakesPart (hostName : Word) : Prop := hostName = 0 ∨ hostName = 1

/-- The machine that the test on this one talks to. -/
def farHost (hostName : Word) : Word := if hostName = 0 then 1 else 0

/-- Where the test stands: in front of each call of the post office, or inside it. -/
inductive TestStage
  | greet
  | greeting
  | await
  | awaiting
  | answer
  | answering
  | confirm
  | confirming
  | done
  deriving DecidableEq

/-- What a line that the test prints says: the text that was got, and who sent it. -/
structure GotLine where
  text : List Byte
  fromHost : Word
  fromBox : Word
  deriving DecidableEq

/-- The variables of `NetworkTest` on one machine, and the lines it has printed. -/
structure NetworkTest where
  stage : TestStage
  inPktHdr : PacketHeader
  inMailHdr : MailHeader
  buffer : List Byte
  printed : List GotLine

namespace NetworkTest

/-- The beginning, with whatever is in the variables. -/
def start (hostName : Word) (uninitialised : NetworkTest) : NetworkTest :=
  { uninitialised with
    stage := if TakesPart hostName then .greet else .done
    printed := [] }

/-- A message is got: it is copied over what is in the buffer, and the text there is printed. -/
def got (test : NetworkTest) (mail : Mail) : NetworkTest :=
  let buffer := PostOffice.overlay mail.data test.buffer
  { test with
    inPktHdr := mail.pktHdr
    inMailHdr := mail.mailHdr
    buffer
    printed := test.printed ++
      [⟨buffer.takeWhile (· ≠ 0), mail.pktHdr.fromHost, mail.mailHdr.fromBox⟩] }

/-- The call of the post office that comes next, and the stage in which it is made. -/
def nextCall (hostName : Word) (test : NetworkTest) : Option (PostEvent Unit × TestStage) :=
  match test.stage with
  | .greet => some (.send () (farHost hostName) helloHdr helloText, .greeting)
  | .await => some (.receive () 0, .awaiting)
  | .answer =>
    some (.send () test.inPktHdr.fromHost (ackHdr test.inMailHdr.fromBox) ackText, .answering)
  | .confirm => some (.receive () 1, .confirming)
  | .greeting | .awaiting | .answering | .confirming | .done => none

end NetworkTest

/-- What the test sees of a step of its post office. -/
inductive PostReturn
  | nothing
  -- Send has returned.
  | sent
  -- Receive has returned with this message.
  | received (mail : Mail)

/-- The calls of the test return at the end of the last `Release` in them. -/
def PostOffice.returns (office : PostOffice Unit) : PostEvent Unit → PostReturn
  | .lock (.v ()) =>
    match office.sender () with
    | .leaving => .sent
    | _ => .nothing
  | .box box (.lock (.v (some ()))) =>
    match (office.boxes box).stage (some ()) with
    | .leaving (some mail) => .received mail
    | _ => .nothing
  | _ => .nothing

/-- The test goes on when its call returns. -/
def NetworkTest.resume (test : NetworkTest) : PostReturn → NetworkTest
  | .nothing => test
  | .sent =>
    match test.stage with
    | .greeting => { test with stage := .await }
    | .answering => { test with stage := .confirm }
    | _ => test
  | .received mail =>
    match test.stage with
    | .awaiting => { test.got mail with stage := .answer }
    | .confirming => { test.got mail with stage := .done }
    | _ => test

/-- The machines with their post offices, each with the test. -/
structure TestSystem where
  net : PostSystem Unit
  test : Word → NetworkTest

/-- What can happen: a test makes its next call, or there is a piece of work at a post office. -/
inductive TestEvent
  | call (hostName : Word)
  | net (hostName : Word) (event : PostEvent Unit)

namespace TestSystem

/-- Both kernels have started: each post office has ten boxes. -/
def boot (inHdr : Word → PacketHeader) (inbox buffer : Word → List Byte)
    (uninitialised : Word → NetworkTest) : TestSystem where
  net := { office := fun hostName => .new 10 (inHdr hostName) (inbox hostName) (buffer hostName) }
  test hostName := .start hostName (uninitialised hostName)

/-- One machine has done something, and this is its test now. -/
def goOn (sys : TestSystem) (hostName : Word) (net : PostSystem Unit) (test : NetworkTest) :
    TestSystem where
  net
  test := Function.update sys.test hostName test

/-- One step of one machine. Only the test makes calls. -/
def step (sys : TestSystem) : TestEvent → Option TestSystem
  | .call hostName => do
    let (event, stage) ← (sys.test hostName).nextCall hostName
    let net ← sys.net.step (hostName, event)
    return sys.goOn hostName net { sys.test hostName with stage }
  | .net hostName event =>
    if event.begins then none
    else do
      let net ← sys.net.step (hostName, event)
      let returned := (sys.net.office hostName).returns event
      return sys.goOn hostName net ((sys.test hostName).resume returned)

end TestSystem

end Nachos
