import Nachos.Proofs.Network.Calls
import Nachos.Threads.NetworkTest

/-! Whatever the network loses, what the machines of the test print is what has happened. -/

namespace Nachos

section Test

theorem farHost_far {hostName : Word} (part : TakesPart hostName) :
    farHost (farHost hostName) = hostName := by
  rcases part with rfl | rfl <;> rfl

/-- The line that is printed for a greeting. -/
def helloLine (fromHost : Word) : GotLine := ⟨helloText.takeWhile (· ≠ 0), fromHost, 1⟩

/-- The line that is printed for an acknowledgement. -/
def ackLine (fromHost : Word) : GotLine := ⟨ackText.takeWhile (· ≠ 0), fromHost, 1⟩

/-- The box at which the test waits for a message. -/
def TestStage.box : TestStage → Option Nat
  | .awaiting => some 0
  | .confirming => some 1
  | .greet | .greeting | .await | .answer | .answering | .confirm | .done => none

namespace NetworkTest

variable {test : NetworkTest} {hostName : Word} {mailHdr : MailHeader} {data : List Byte}

/-- What a test sends: the greeting, and the acknowledgement once it has got a greeting. -/
def Said (test : NetworkTest) (mailHdr : MailHeader) (data : List Byte) : Prop :=
  (mailHdr = helloHdr ∧ data = helloText) ∨
    (mailHdr = ackHdr 1 ∧ data = ackText ∧ test.printed ≠ [])

/-- What the test has printed, and what it remembers of the greeting, wherever it stands. -/
def Sound (hostName : Word) (test : NetworkTest) : Prop :=
  match test.stage with
  | .greet | .greeting | .await | .awaiting => TakesPart hostName ∧ test.printed = []
  | .answer =>
    TakesPart hostName ∧ test.printed = [helloLine (farHost hostName)] ∧
      test.inPktHdr.fromHost = farHost hostName ∧ test.inMailHdr.fromBox = 1
  | .answering | .confirm | .confirming =>
    TakesPart hostName ∧ test.printed = [helloLine (farHost hostName)]
  | .done =>
    (TakesPart hostName →
      test.printed = [helloLine (farHost hostName), ackLine (farHost hostName)]) ∧
    (¬ TakesPart hostName → test.printed = [])

/-- A test that waits for a message takes part. -/
theorem Sound.takesPart (sound : test.Sound hostName) {box : Nat}
    (waits : test.stage.box = some box) : TakesPart hostName := by
  unfold Sound at sound
  cases stage : test.stage <;> simp_all [TestStage.box]

/-- A test that is where it should be is so when it makes its next call. -/
theorem Sound.call (sound : test.Sound hostName) {event : PostEvent Unit} {stage : TestStage}
    (next : test.nextCall hostName = some (event, stage)) :
    NetworkTest.Sound hostName { test with stage } := by
  unfold Sound at sound ⊢
  unfold nextCall at next
  -- By cases on the stage: each call leaves the test where its result is waited for.
  split at next
  · rename_i greet
    cases next
    simpa only [greet] using sound
  · rename_i await
    cases next
    simpa only [await] using sound
  · rename_i answer
    cases next
    simp only [answer] at sound
    exact ⟨sound.1, sound.2.1⟩
  · rename_i confirm
    cases next
    simpa only [confirm] using sound
  all_goals cases next

/-- What a test has said, it goes on having said. -/
theorem Said.mono {later : NetworkTest} (said : test.Said mailHdr data)
    (grows : test.printed ≠ [] → later.printed ≠ []) : later.Said mailHdr data := by
  rcases said with hello | ⟨header, text, printed⟩
  · exact .inl hello
  · exact .inr ⟨header, text, grows printed⟩

/-- Nothing that was printed is taken back. -/
theorem resume_printed (returned : PostReturn) (printed : test.printed ≠ []) :
    (test.resume returned).printed ≠ [] := by
  unfold resume got
  split
  · exact printed
  · split <;> exact printed
  · split <;> simp [printed]

/-- A call that has not returned a message leaves the test waiting where it is. -/
theorem resume_box {returned : PostReturn} (nothing : ∀ mail, returned ≠ .received mail)
    {box : Nat} (waits : test.stage.box = some box) :
    (test.resume returned).stage.box = some box := by
  cases returned with
  | nothing => exact waits
  | sent => cases stage : test.stage <;> simp_all [resume, TestStage.box]
  | received mail => exact absurd rfl (nothing mail)

/-- The line that is printed for a message with a text in it. -/
theorem got_printed (test : NetworkTest) {mail : Mail} {text : List Byte}
    (carried : mail.data = text) (ends : (0 : Byte) ∈ text) :
    (test.got mail).printed =
      test.printed ++ [⟨text.takeWhile (· ≠ 0), mail.pktHdr.fromHost, mail.mailHdr.fromBox⟩] := by
  -- What lies in the buffer behind the zero is not printed.
  -- Up to the zero the text is the whole of what is printed.
  have cut : ∀ (front rest : List Byte), (0 : Byte) ∈ front →
      (front ++ rest).takeWhile (· ≠ 0) = front.takeWhile (· ≠ 0) := by
    intro front rest member
    induction front with
    | nil => cases member
    | cons byte front ih =>
      by_cases zero : byte = 0
      · simp [zero]
      · have later : (0 : Byte) ∈ front := by
          rcases List.mem_cons.mp member with same | later
          · exact absurd same.symm zero
          · exact later
        simp only [List.cons_append, List.takeWhile_cons, ih later]
  unfold got PostOffice.overlay
  dsimp only
  rw [carried, cut _ _ ends]

/-- A return that brings no message changes nothing of what the test has printed. -/
theorem resume_quiet {returned : PostReturn} (quiet : ∀ mail, returned ≠ .received mail) :
    (test.resume returned).printed = test.printed := by
  cases returned with
  | nothing => rfl
  | sent => cases stage : test.stage <;> simp [resume, stage]
  | received mail => exact absurd rfl (quiet mail)

/-- Nor does it bring the test anywhere it should not be. -/
theorem Sound.resume (sound : test.Sound hostName) {returned : PostReturn}
    (quiet : ∀ mail, returned ≠ .received mail) : (test.resume returned).Sound hostName := by
  cases returned with
  | nothing => exact sound
  | sent =>
    unfold Sound at sound ⊢
    cases stage : test.stage <;> simp_all [NetworkTest.resume]
  | received mail => exact absurd rfl (quiet mail)

/-- The two lines say different things. -/
theorem ackLine_ne (fromHost : Word) : ackLine fromHost ≠ helloLine fromHost := by
  intro same
  have texts := congrArg GotLine.text same
  revert texts
  change ackText.takeWhile (· ≠ 0) = helloText.takeWhile (· ≠ 0) → False
  decide

/-- A message brings the test on, if it is one that the other machine has said. -/
theorem Sound.received (sound : test.Sound hostName) {box : Nat}
    (waits : test.stage.box = some box) {mail : Mail}
    (fromHost : mail.pktHdr.fromHost = farHost hostName) {far : NetworkTest}
    (said : far.Said mail.mailHdr mail.data) (forBox : mail.mailHdr.toBox.toInt = box) :
    (test.resume (.received mail)).Sound hostName ∧
      (ackLine (farHost hostName) ∈ (test.resume (.received mail)).printed →
        far.printed ≠ []) := by
  -- The test waits in the box of a greeting, or in that of an acknowledgement.
  have part := sound.takesPart waits
  unfold Sound at sound
  -- By cases on the stage, of which only these two wait.
  cases stage : test.stage with
  | awaiting =>
    rw [stage] at waits
    cases waits
    simp only [stage] at sound
    -- In the first box only a greeting can come.
    rcases said with ⟨header, text⟩ | ⟨header, text, -⟩
    · have printed := test.got_printed text (by decide)
      rw [sound.2, fromHost, header] at printed
      have resumed : test.resume (.received mail) = { test.got mail with stage := .answer } := by
        simp only [NetworkTest.resume, stage]
      rw [resumed]
      refine ⟨⟨part, printed, fromHost, by simp [got, header]; rfl⟩, fun ack => ?_⟩
      have only : ackLine (farHost hostName) = helloLine (farHost hostName) := by
        rw [printed] at ack
        exact List.mem_singleton.mp ack
      exact absurd only (ackLine_ne _)
    · -- An acknowledgement does not go to this box.
      rw [header] at forBox
      exact absurd forBox (by decide)
  | confirming =>
    rw [stage] at waits
    cases waits
    simp only [stage] at sound
    rcases said with ⟨header, text⟩ | ⟨header, text, greeted⟩
    · -- A greeting does not go to this box.
      rw [header] at forBox
      exact absurd forBox (by decide)
    · -- The acknowledgement is printed, and the other machine was greeted before it said so.
      have printed := test.got_printed text (by decide)
      rw [sound.2, fromHost, header] at printed
      have resumed : test.resume (.received mail) = { test.got mail with stage := .done } := by
        simp only [NetworkTest.resume, stage]
      rw [resumed]
      exact ⟨⟨fun _ => printed, fun apart => absurd part apart⟩, fun _ => greeted⟩
  -- In the other stages the test is in no box.
  | greet | greeting | await | answer | answering | confirm | done =>
    rw [stage] at waits
    cases waits

/-- A test that takes part prints the greeting of the other machine, and its acknowledgement. -/
theorem Sound.printed_prefix (sound : test.Sound hostName) (part : TakesPart hostName) :
    test.printed <+: [helloLine (farHost hostName), ackLine (farHost hostName)] := by
  unfold Sound at sound
  cases stage : test.stage with
  -- Nothing has been printed yet.
  | greet | greeting | await | awaiting =>
    simp only [stage] at sound
    rw [sound.2]
    exact List.nil_prefix
  -- The greeting has been printed.
  | answer =>
    simp only [stage] at sound
    rw [sound.2.1]
    exact List.prefix_append [_] [_]
  | answering | confirm | confirming =>
    simp only [stage] at sound
    rw [sound.2]
    exact List.prefix_append [_] [_]
  -- Both have been printed.
  | done =>
    simp only [stage] at sound
    rw [sound.1 part]

/-- The first line is the greeting. -/
theorem Sound.hello (sound : test.Sound hostName) (part : TakesPart hostName)
    (printed : test.printed ≠ []) : helloLine (farHost hostName) ∈ test.printed := by
  obtain ⟨rest, whole⟩ := sound.printed_prefix part
  cases lines : test.printed with
  | nil => exact absurd lines printed
  | cons line lines' =>
    rw [lines, List.cons_append] at whole
    rw [(List.cons.inj whole).1]
    exact List.mem_cons_self

end NetworkTest

/-- The end of `Release` is the end of the call. -/
theorem SynchListSystem.idle_of_v {Thread Item : Type} [DecidableEq Thread]
    {sys next : SynchListSystem Thread Item} {thread : Thread} {result : Option Item}
    (stepped : sys.step (.lock (.v thread)) = some next)
    (leaving : sys.stage thread = .leaving result) : next.stage thread = .idle := by
  cases SynchListSystem.step_cases stepped
  simp [LockEvent.thread, leaving, SynchListStage.after]

/-- `Receive` returns what a consumer at the end of its call has taken off the list. -/
theorem PostOffice.received_of_returns {office : PostOffice Unit} {event : PostEvent Unit}
    {mail : Mail} (returned : office.returns event = .received mail) :
    ∃ box, event = .box box (.lock (.v (some ()))) ∧
      (office.boxes box).stage (some ()) = .leaving (some mail) := by
  unfold returns at returned
  -- Only the return of the lock of a box ends a call of `Receive`.
  split at returned
  · split at returned <;> cases returned
  · rename_i box
    split at returned
    · rename_i leaving
      cases returned
      exact ⟨box, rfl, leaving⟩
    · cases returned
  · cases returned

/-- A message that was taken from a box has arrived, and was meant for the box. -/
theorem PostOffice.Incoming.arrived_of_removed {office : PostOffice Unit} {hostName : Word}
    (incoming : office.Incoming hostName) {box : Nat} {mail : Mail}
    (removed : mail ∈ (office.boxes box).removed) :
    mail.letter ∈ office.arrived ∧ isFor box mail.letter = true := by
  -- It was put into the box before it was taken from it.
  have piped : mail.letter ∈ office.boxed box := by
    refine List.mem_map_of_mem (List.mem_append_left _ ?_)
    rw [← (incoming.lists box).fifo]
    exact List.mem_append_left _ removed
  -- And it was read before it was put there.
  have found : mail.letter ∈ office.read.filter (isFor box) := by
    rw [incoming.accounted]
    exact List.mem_append_left _ piped
  obtain ⟨read, forBox⟩ := List.mem_filter.mp found
  refine ⟨?_, forBox⟩
  rw [incoming.arrived]
  exact List.mem_append_left _ read

namespace TestSystem

variable {sys : TestSystem} {net : PostSystem Unit} {hostName : Word} {event : PostEvent Unit}

/-- What every run keeps of one machine. -/
structure Kept (sys : TestSystem) (hostName : Word) : Prop where
  took : ∀ box, ((sys.net.office hostName).boxes box).Took
  -- The thread is in a box only while the test waits there.
  waits : ∀ box, ((sys.net.office hostName).boxes box).stage (some ()) ≠ .idle →
    (sys.test hostName).stage.box = some box
  sends : ∀ pktHdr mailHdr data,
    (sys.net.office hostName).sender () = .entering pktHdr mailHdr data →
    TakesPart hostName ∧ pktHdr.toHost = farHost hostName ∧
      (sys.test hostName).Said mailHdr data
  -- What has arrived is what the test on the other machine has said.
  arrived : ∀ letter ∈ (sys.net.office hostName).arrived,
    TakesPart letter.fromHost ∧ farHost letter.fromHost = hostName ∧
      (sys.test letter.fromHost).Said letter.mailHdr letter.data
  sound : (sys.test hostName).Sound hostName
  acknowledged : ackLine (farHost hostName) ∈ (sys.test hostName).printed →
    (sys.test (farHost hostName)).printed ≠ []

/-- What a step has to show of the machine that takes it, for all machines to be kept. -/
structure Shown (sys : TestSystem) (hostName : Word) (test : NetworkTest)
    (office : PostOffice Unit) (sent : Option Datagram) : Prop where
  waits : ∀ box, (office.boxes box).stage (some ()) ≠ .idle → test.stage.box = some box
  sends : ∀ pktHdr mailHdr data, office.sender () = .entering pktHdr mailHdr data →
    TakesPart hostName ∧ pktHdr.toHost = farHost hostName ∧ test.Said mailHdr data
  speaks : ∀ datagram, sent = some datagram →
    TakesPart hostName ∧ datagram.toHost = farHost hostName ∧
      datagram.letter.fromHost = hostName ∧
      (sys.test hostName).Said datagram.letter.mailHdr datagram.letter.data

/-- A step of one machine keeps all of them, if it is what it should be on that machine. -/
theorem kept_step (kept : ∀ hostName, sys.Kept hostName)
    (stepped : sys.net.step (hostName, event) = some net) {test : NetworkTest}
    (grows : (sys.test hostName).printed ≠ [] → test.printed ≠ []) (sound : test.Sound hostName)
    (acknowledged : ackLine (farHost hostName) ∈ test.printed →
      (sys.test (farHost hostName)).printed ≠ [])
    (shown : ∀ office sent, (sys.net.office hostName).step hostName event = some (office, sent) →
      sys.Shown hostName test office sent) (other : Word) :
    (sys.goOn hostName net test).Kept other := by
  -- What the step does to the boxes, to the senders and to what has arrived.
  obtain ⟨office, sent, worked, sees⟩ := PostSystem.step_sees stepped
  have shown := shown office sent worked
  obtain ⟨boxes, sender, arrives⟩ := sees other
  -- What has been printed stays printed, on every machine.
  have grown : ∀ host, (sys.test host).printed ≠ [] →
      (Function.update sys.test hostName test host).printed ≠ [] := by
    intro host
    by_cases same : host = hostName
    · subst same
      rw [Function.update_self]
      exact grows
    · rw [Function.update_of_ne same]
      exact id
  -- A letter that has arrived was said before, or is the one that is sent now.
  have arrived : ∀ letter ∈ (net.office other).arrived,
      TakesPart letter.fromHost ∧ farHost letter.fromHost = other ∧
        (Function.update sys.test hostName test letter.fromHost).Said letter.mailHdr
          letter.data := by
    intro letter arrived
    rcases arrives letter arrived with before | ⟨datagram, new, rfl, rfl⟩
    · obtain ⟨part, far, said⟩ := (kept other).arrived letter before
      exact ⟨part, far, said.mono (grown _)⟩
    · obtain ⟨part, far, fromHere, said⟩ := shown.speaks datagram new
      rw [fromHere]
      exact ⟨part, far.symm, said.mono (grown _)⟩
  by_cases same : other = hostName
  · -- The machine that takes the step.
    subst same
    rw [Function.update_self] at boxes sender
    refine ⟨fun box => ?_, ?_, ?_, arrived, ?_, ?_⟩
    · change ((net.office other).boxes box).Took
      rw [boxes]
      -- Its boxes keep what they know of themselves, whether they are worked on or not.
      rcases PostOffice.step_boxes worked with same | ⟨place, piece, messages, -, went, moved⟩
      · rw [same]
        exact (kept other).took box
      · rw [moved]
        by_cases here : box = place
        · subst here
          rw [Function.update_self]
          exact ((kept other).took box).step went
        · rw [Function.update_of_ne here]
          exact (kept other).took box
    · -- The rest of it is what the test shows now.
      simpa only [goOn, boxes, Function.update_self] using shown.waits
    · simpa only [goOn, sender, Function.update_self] using shown.sends
    · simpa only [goOn, Function.update_self] using sound
    · simp only [goOn, Function.update_self]
      exact fun ack => grown _ (acknowledged ack)
  · -- Any other machine.
    rw [Function.update_of_ne same] at boxes sender
    refine ⟨?_, ?_, ?_, arrived, ?_, ?_⟩
    · -- It is as it was, but for what has arrived.
      simpa only [goOn, boxes] using (kept other).took
    · simpa only [goOn, boxes, Function.update_of_ne same] using (kept other).waits
    · simpa only [goOn, sender, Function.update_of_ne same] using (kept other).sends
    · simpa only [goOn, Function.update_of_ne same] using (kept other).sound
    · simp only [goOn, Function.update_of_ne same]
      exact fun ack => grown _ ((kept other).acknowledged ack)

/-- The test makes a call: what it sends is what it should, and it waits where it should. -/
theorem kept_call (kept : ∀ hostName, sys.Kept hostName) {stage : TestStage}
    (next : (sys.test hostName).nextCall hostName = some (event, stage))
    (stepped : sys.net.step (hostName, event) = some net) (other : Word) :
    (sys.goOn hostName net { sys.test hostName with stage }).Kept other := by
  have here := kept hostName
  have sound := here.sound
  -- Before the call, the thread is in none of the boxes.
  have outside : (sys.test hostName).stage.box = none → ∀ box,
      ((sys.net.office hostName).boxes box).stage (some ()) = .idle := by
    intro nowhere box
    by_contra inside
    rw [here.waits box inside] at nowhere
    cases nowhere
  refine kept_step kept stepped ?_ ?_ ?_ ?_ other
  · -- The call prints nothing.
    exact id
  · exact sound.call next
  · exact here.acknowledged
  · -- What the call does, for each of the four.
    intro office sent worked
    unfold NetworkTest.nextCall at next
    unfold NetworkTest.Sound at sound
    split at next
    · -- The greeting.
      rename_i greet
      cases next
      simp only [greet] at sound
      obtain ⟨rfl, boxes, length, sender⟩ := PostOffice.step_send worked
      refine ⟨fun box inside => ?_, fun pktHdr mailHdr data entering => ?_,
        fun _ new => by cases new⟩
      · -- The thread is in no box, as before.
        rw [boxes] at inside
        exact absurd (outside (by rw [greet]; rfl) box) inside
      · -- The packet is the greeting.
        rw [sender, Function.update_self] at entering
        cases entering
        exact ⟨sound.1, rfl, .inl ⟨rfl, rfl⟩⟩
    · -- The test waits for the greeting of the other machine.
      rename_i await
      cases next
      obtain ⟨rfl, sender, boxes⟩ := PostOffice.step_receive worked
      refine ⟨fun box inside => ?_, ?_, fun _ new => by cases new⟩
      · -- The only box that the thread is in is the one that it called for.
        have same : box = 0 := by
          by_contra different
          rw [boxes, Function.update_of_ne different] at inside
          exact inside (outside (by rw [await]; rfl) box)
        rw [same]
        rfl
      · rw [sender]
        exact here.sends
    · -- The acknowledgement goes where the greeting came from.
      rename_i answer
      cases next
      simp only [answer] at sound
      obtain ⟨part, printed, fromHost, fromBox⟩ := sound
      obtain ⟨rfl, boxes, length, sender⟩ := PostOffice.step_send worked
      refine ⟨fun box inside => ?_, fun pktHdr mailHdr data entering => ?_,
        fun _ new => by cases new⟩
      · -- The thread is in no box, as before.
        rw [boxes] at inside
        exact absurd (outside (by rw [answer]; rfl) box) inside
      · -- The packet is the acknowledgement, and the greeting has been printed.
        rw [sender, Function.update_self] at entering
        cases entering
        refine ⟨part, fromHost, .inr ⟨by rw [fromBox], rfl, ?_⟩⟩
        simp [printed]
    · -- The test waits for the acknowledgement.
      rename_i confirm
      cases next
      obtain ⟨rfl, sender, boxes⟩ := PostOffice.step_receive worked
      refine ⟨fun box inside => ?_, ?_, fun _ new => by cases new⟩
      · -- The only box that the thread is in is the one that it called for.
        have same : box = 1 := by
          by_contra different
          rw [boxes, Function.update_of_ne different] at inside
          exact inside (outside (by rw [confirm]; rfl) box)
        rw [same]
        rfl
      · rw [sender]
        exact here.sends
    all_goals cases next

/-- A piece of work at the post office: the test goes on if its call returns. -/
theorem kept_net (inv : sys.net.Invariant fun _ => 10) (kept : ∀ hostName, sys.Kept hostName)
    (goesOn : event.begins = false) (stepped : sys.net.step (hostName, event) = some net)
    (other : Word) :
    (sys.goOn hostName net
      ((sys.test hostName).resume ((sys.net.office hostName).returns event))).Kept other := by
  have here := kept hostName
  generalize returns : (sys.net.office hostName).returns event = returned
  -- A message that is returned was said by the other machine, for the box where the test waits.
  have message : ∀ mail, returned = .received mail →
      ∃ box, event = .box box (.lock (.v (some ()))) ∧
        ((sys.net.office hostName).boxes box).stage (some ()) = .leaving (some mail) ∧
        mail.pktHdr.fromHost = farHost hostName ∧
        (sys.test (farHost hostName)).Said mail.mailHdr mail.data ∧
        mail.mailHdr.toBox.toInt = box := by
    intro mail same
    -- What was returned was taken from the box, and so had arrived there.
    obtain ⟨box, ended, leaving⟩ := PostOffice.received_of_returns (returns.trans same)
    obtain ⟨arrived, forBox⟩ :=
      (inv hostName).incoming.arrived_of_removed (here.took box _ _ leaving)
    obtain ⟨part, far, said⟩ := here.arrived mail.letter arrived
    -- And the letter comes from the machine that this one talks to.
    have sender : mail.letter.fromHost = farHost hostName := by
      rw [← far, farHost_far part]
    exact ⟨box, ended, leaving, sender, sender ▸ said, PostOffice.isFor_iff.mp forBox⟩
  have sounds : ((sys.test hostName).resume returned).Sound hostName ∧
      (ackLine (farHost hostName) ∈ ((sys.test hostName).resume returned).printed →
        (sys.test (farHost hostName)).printed ≠ []) := by
    -- Either no message is returned, or the test goes on with one.
    by_cases quiet : ∀ mail, returned ≠ .received mail
    · rw [NetworkTest.resume_quiet quiet]
      exact ⟨here.sound.resume quiet, here.acknowledged⟩
    · obtain ⟨mail, rfl⟩ := not_forall_not.mp quiet
      obtain ⟨box, -, leaving, fromHost, said, forBox⟩ := message mail rfl
      exact here.sound.received (here.waits box (by simp [leaving])) fromHost said forBox
  refine kept_step kept stepped (NetworkTest.resume_printed _) sounds.1 sounds.2
    (fun office sent worked => ?_) other
  -- Nobody begins to send in such a step.
  obtain ⟨before, speaks⟩ := PostOffice.step_sender goesOn worked
  refine ⟨fun box inside => ?_, fun pktHdr mailHdr data entering => ?_, fun datagram new => ?_⟩
  · -- The thread has been in the box before.
    have was : ((sys.net.office hostName).boxes box).stage (some ()) ≠ .idle := by
      intro idle
      apply inside
      -- The step leaves its box alone, or goes on in it without a call.
      rcases PostOffice.step_boxes worked with
        unchanged | ⟨place, piece, messages, done, went, moved⟩
      · rw [unchanged]
        exact idle
      · rw [moved]
        by_cases same : box = place
        · subst same
          rw [Function.update_self]
          exact done.idle goesOn went idle
        · rw [Function.update_of_ne same]
          exact idle
    have waits := here.waits box was
    by_cases quiet : ∀ mail, returned ≠ .received mail
    · exact NetworkTest.resume_box quiet waits
    · -- It is not there any more when its call has returned.
      obtain ⟨mail, rfl⟩ := not_forall_not.mp quiet
      obtain ⟨place, rfl, leaving, -⟩ := message mail rfl
      have same : place = box :=
        Option.some.inj ((here.waits place (by simp [leaving])).symm.trans waits)
      subst same
      simp only [PostOffice.step, Option.ite_none_right_eq_some, Option.map_eq_some_iff,
        Prod.mk.injEq] at worked
      obtain ⟨-, messages, went, rfl, -⟩ := worked
      simp only [Function.update_self] at inside
      exact absurd (SynchListSystem.idle_of_v went leaving) inside
  · -- The packets that are to be sent are those from before.
    obtain ⟨part, far, said⟩ := here.sends pktHdr mailHdr data (before _ _ _ _ entering)
    exact ⟨part, far, said.mono (NetworkTest.resume_printed _)⟩
  · -- The datagram that is sent was one of these.
    obtain ⟨thread, pktHdr, mailHdr, data, entering, toHost, letter⟩ := speaks datagram new
    obtain ⟨part, far, said⟩ := here.sends pktHdr mailHdr data entering
    rw [letter]
    exact ⟨part, toHost.trans far, rfl, said⟩

/-- What every run keeps. -/
structure Invariant (sys : TestSystem) : Prop where
  net : sys.net.Invariant fun _ => 10
  kept : ∀ hostName, sys.Kept hostName

/-- The test sends to boxes that the other machine has. -/
theorem Invariant.addressed (inv : sys.Invariant) {stage : TestStage}
    (next : (sys.test hostName).nextCall hostName = some (event, stage)) :
    sys.net.Addressed (hostName, event) := by
  have sound := (inv.kept hostName).sound
  unfold NetworkTest.Sound at sound
  unfold NetworkTest.nextCall at next
  -- The greeting goes to box 0, of ten.
  split at next
  · cases next
    change helloHdr.toBox.toInt < ((sys.net.office _).numBoxes : Int)
    rw [(inv.net _).boxes]
    decide
  · -- A call of `Receive` is for no other machine.
    cases next
    trivial
  · -- The acknowledgement goes to the box that the greeting named.
    rename_i answer
    cases next
    simp only [answer] at sound
    obtain ⟨-, -, -, fromBox⟩ := sound
    change (sys.test hostName).inMailHdr.fromBox.toInt < ((sys.net.office _).numBoxes : Int)
    rw [(inv.net _).boxes, fromBox]
    decide
  · cases next
    trivial
  all_goals cases next

/-- Every step keeps the invariant. -/
theorem Invariant.step {event : TestEvent} {next : TestSystem} (inv : sys.Invariant)
    (stepped : sys.step event = some next) : next.Invariant := by
  cases event with
  | call hostName =>
    simp only [TestSystem.step, Option.bind_eq_bind, Option.bind_eq_some_iff] at stepped
    -- The test calls.
    obtain ⟨⟨event, stage⟩, made, net, worked, given⟩ := stepped
    cases given
    exact ⟨inv.net.step (inv.addressed made) worked, kept_call inv.kept made worked⟩
  | net hostName event =>
    simp only [TestSystem.step] at stepped
    -- The kernel is not allowed to call in the place of the test.
    split at stepped
    · cases stepped
    · rename_i goesOn
      simp only [Option.bind_eq_bind, Option.bind_eq_some_iff] at stepped
      obtain ⟨net, worked, given⟩ := stepped
      cases given
      -- Only a call of Send has an address to be checked.
      have begun : event.begins = false := by simpa using goesOn
      have addressed : sys.net.Addressed (hostName, event) := by
        cases event <;> trivial
      exact ⟨inv.net.step addressed worked, kept_net inv.net inv.kept begun worked⟩

/-- The machines start in it. -/
theorem invariant_boot (inHdr : Word → PacketHeader) (inbox buffer : Word → List Byte)
    (uninitialised : Word → NetworkTest) :
    (boot inHdr inbox buffer uninitialised).Invariant := by
  refine ⟨PostSystem.invariant_boot inHdr inbox buffer, fun hostName => ?_⟩
  refine ⟨(fun _ _ _ leaving => by cases leaving), (fun _ inside => absurd rfl inside),
    (fun _ _ _ entering => by cases entering), (fun _ arrived => by cases arrived), ?_,
    fun ack => by cases ack⟩
  unfold NetworkTest.Sound boot NetworkTest.start
  by_cases part : TakesPart hostName <;> simp [part]

end TestSystem

/--
What the two machines of the test print is what has happened, whatever the network loses.

In every run, each of them prints the greeting of the other one, and then its acknowledgement, or
less; it prints the acknowledgement only when the other machine has printed its greeting; and no
assertion about a packet fails.
-/
theorem networkTest_acknowledges (inHdr : Word → PacketHeader) (inbox buffer : Word → List Byte)
    (uninitialised : Word → NetworkTest) (events : List TestEvent) (sys : TestSystem)
    (reached : replay TestSystem.step (.boot inHdr inbox buffer uninitialised) events = some sys)
    (hostName : Word) (part : TakesPart hostName) :
    (sys.test hostName).printed <+:
      [helloLine (farHost hostName), ackLine (farHost hostName)] ∧
    (ackLine (farHost hostName) ∈ (sys.test hostName).printed →
      helloLine hostName ∈ (sys.test (farHost hostName)).printed) ∧
    (sys.net.office hostName).aborted = false := by
  -- The invariant holds all along the run.
  have inv : sys.Invariant :=
    replay_invariant (fun _ _ _ inv stepped => TestSystem.Invariant.step inv stepped)
      (TestSystem.invariant_boot inHdr inbox buffer uninitialised) reached
  have here := inv.kept hostName
  refine ⟨here.sound.printed_prefix part, fun ack => ?_, (inv.net hostName).incoming.sound⟩
  -- The other machine has printed something, and that begins with the greeting.
  -- The machine at the other end takes part as well.
  have farPart : TakesPart (farHost hostName) := by
    rcases part with rfl | rfl
    · exact .inr rfl
    · exact .inl rfl
  have far := (inv.kept (farHost hostName)).sound.hello farPart (here.acknowledged ack)
  rwa [farHost_far part] at far

/-- A call of `Send` on a machine, from the call to the return. -/
def sendCall (hostName : Word) : List TestEvent :=
  .call hostName :: [.lock (.acquire ()), .lock (.p ()), .lock (.hold ()), .transmit () false [],
    .sentInterrupt, .sentP (), .lock (.release ()), .lock (.v ())].map (.net hostName)

/-- A packet arrives on a machine, and the postal worker puts it into its box. -/
def delivery (hostName : Word) (box : Nat) : List TestEvent :=
  [.poll, .available, .collect, .box box (.lock (.acquire none)), .box box (.lock (.p none)),
    .box box (.lock (.hold none)), .box box (.put none), .box box (.lock (.release none)),
    .box box (.lock (.v none)), .again].map (.net hostName)

/-- A call of `Receive` on a machine that has a message in the box. -/
def receiveCall (hostName : Word) (box : Nat) : List TestEvent :=
  .call hostName :: [.box box (.lock (.acquire (some ()))), .box box (.lock (.p (some ()))),
    .box box (.lock (.hold (some ()))), .box box (.test (some ())),
    .box box (.lock (.release (some ()))), .box box (.lock (.v (some ())))].map (.net hostName)

/-- Both machines greet, and machine 0 gets the acknowledgement of machine 1. -/
def acknowledgedRun : List TestEvent :=
  sendCall 0 ++ sendCall 1 ++ delivery 1 0 ++ receiveCall 1 0 ++ sendCall 1 ++ delivery 0 0 ++
    receiveCall 0 0 ++ sendCall 0 ++ delivery 0 1 ++ receiveCall 0 1

/-- The machines before the test, with nothing in their buffers. -/
def quietBoot : TestSystem :=
  .boot (fun _ => ⟨0, 0, 0⟩) (fun _ => []) (fun _ => [])
    fun _ => ⟨.done, ⟨0, 0, 0⟩, ⟨0, 0, 0⟩, [], []⟩

/-- Machine 0 prints both lines, and so machine 1 has printed the greeting. -/
theorem networkTest_acknowledges_both :
    ∃ sys, replay TestSystem.step quietBoot acknowledgedRun = some sys ∧
      (sys.test 0).printed = [helloLine 1, ackLine 1] ∧ helloLine 0 ∈ (sys.test 1).printed := by
  have evaluated : (replay TestSystem.step quietBoot acknowledgedRun).map
      (fun sys => (sys.test 0).printed) = some [helloLine 1, ackLine 1] := by decide +kernel
  obtain ⟨sys, reached, printed⟩ := Option.map_eq_some_iff.mp evaluated
  refine ⟨sys, reached, printed, ?_⟩
  have acknowledged := (networkTest_acknowledges _ _ _ _ acknowledgedRun sys reached 0
    (.inl rfl)).2.1
  exact acknowledged (by rw [printed]; simp [farHost])

end Test

end Nachos
