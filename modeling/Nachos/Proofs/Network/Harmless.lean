import Nachos.Proofs.Network.PostOffice

/-! Which mail a machine can be sent without an assertion of its post office failing. -/

namespace Nachos

section

variable {Thread : Type} [DecidableEq Thread]

namespace PostOffice

variable {office next : PostOffice Thread} {hostName : Word}

/-- One piece of a machine's own work, which sends nothing to another machine. -/
def work (hostName : Word) (office : PostOffice Thread) (event : PostEvent Thread) :
    Option (PostOffice Thread) :=
  match office.step hostName event with
  | some (next, none) => some next
  | _ => none

/-- The events by which a thread gets hold of the network for its mail. -/
def preparing (thread : Thread) (toHost : Word) (mailHdr : MailHeader) (data : List Byte) :
    List (PostEvent Thread) :=
  [.send thread toHost mailHdr data, .lock (.acquire thread), .lock (.p thread),
    .lock (.hold thread)]

/-- A new post office with a thread that has the network for its mail. -/
def prepared (office : PostOffice Thread) (hostName : Word) (thread : Thread) (toHost : Word)
    (mailHdr : MailHeader) (data : List Byte) : PostOffice Thread :=
  { office with
    sendLock := { LockSystem.new with semaphore := .new 0, lockHolder := some thread }.move thread
      .holding
    sender := Function.update (fun _ => .idle) thread (.entering
      ⟨toHost, hostName, mailHdr.length + BitVec.ofNat 32 sizeofHeader⟩ mailHdr
      (data.take mailHdr.length.toNat)) }

/-- A thread of a new post office gets hold of the network for any mail that `Send` accepts. -/
theorem replay_preparing (numBoxes : Nat) (inHdr : PacketHeader) (inbox buffer : List Byte)
    (thread : Thread) (toHost : Word) {mailHdr : MailHeader} {data : List Byte}
    (small : mailHdr.length.toNat ≤ maxMailSize) (nonneg : 0 ≤ mailHdr.toBox.toInt)
    (held : mailHdr.length.toNat ≤ data.length) :
    replay (work hostName) (.new numBoxes inHdr inbox buffer)
        (preparing thread toHost mailHdr data) =
      some (prepared (.new numBoxes inHdr inbox buffer) hostName thread toHost mailHdr data) := by
  simp [replay, work, preparing, prepared, PostOffice.step, PostOffice.new, small, nonneg, held,
    move, SendStage.allows, SendStage.after, LockEvent.thread, LockSystem.step, LockSystem.new,
    LockSystem.move, Semaphore.test, Semaphore.new]

/-- The thread that has the network gives its packet to it. -/
theorem prepared_transmits (numBoxes : Nat) (inHdr : PacketHeader) (inbox buffer : List Byte)
    (thread : Thread) {boxes : Nat} {toHost : Word} {mailHdr : MailHeader} {data : List Byte}
    (posted : Posted toHost boxes
      ⟨toHost, hostName, mailHdr.length + BitVec.ofNat 32 sizeofHeader⟩ mailHdr
      (data.take mailHdr.length.toNat)) :
    ∃ next letter, (prepared (.new numBoxes inHdr inbox buffer) hostName thread toHost mailHdr
        data).step hostName (.transmit thread false []) =
      some (next, some ⟨toHost, wire
        ⟨toHost, hostName, mailHdr.length + BitVec.ofNat 32 sizeofHeader⟩ mailHdr
        (data.take mailHdr.length.toNat) [], letter⟩) := by
  -- The packet is mail, and so neither empty nor too long.
  have genuine : Genuine toHost boxes
      (⟨toHost, hostName, mailHdr.length + BitVec.ofNat 32 sizeofHeader⟩,
        mailHdr.toBytes ++ data.take mailHdr.length.toNat) := ⟨mailHdr, _, posted, rfl⟩
  have full := genuine.length_ne
  have fits := genuine.length_le
  dsimp only at full fits
  -- The thread has the lock, so the event is possible.
  have stepped : (prepared (.new numBoxes inHdr inbox buffer) hostName thread toHost mailHdr
      data).step hostName (.transmit thread false []) =
      some ((prepared (.new numBoxes inHdr inbox buffer) hostName thread toHost mailHdr
        data).transmit hostName thread
          ⟨toHost, hostName, mailHdr.length + BitVec.ofNat 32 sizeofHeader⟩ mailHdr
          (data.take mailHdr.length.toNat) [] false) := by
    simp [PostOffice.step, prepared, LockSystem.move]
  rw [stepped]
  unfold PostOffice.transmit
  -- The network is free, and the packet is one that it takes.
  rw [if_pos ⟨rfl, full, fits, rfl⟩]
  exact ⟨_, _, rfl⟩

/-- Without a box for the message that it has found, the worker's assertion fails. -/
theorem collect_nobox (office : PostOffice Thread) (mail : Mail)
    (found : Mail.ofPacket office.inHdr office.receive.buffer = mail)
    (nobox : office.numBoxes ≤ mail.mailHdr.toBox.toInt) :
    office.collect = some { office.receive with aborted := true } := by
  unfold collect
  dsimp only
  rw [found, if_neg]
  rintro ⟨-, below, -⟩
  have boxes : office.receive.numBoxes = office.numBoxes := rfl
  omega

/-- A message for a box that does not exist fails the worker's assertion. -/
theorem replay_collecting {pktHdr : PacketHeader} {mailHdr : MailHeader} {data : List Byte}
    {numBoxes : Nat} (posted : Posted hostName numBoxes pktHdr mailHdr data)
    (empty : office.inHdr.length = 0) (waiting : office.worker = .waiting)
    (nothing : office.messageAvailable = .new 0)
    (socket : office.socket = [wire pktHdr mailHdr data []])
    (nobox : office.numBoxes ≤ mailHdr.toBox.toInt) :
    (replay (work hostName) office [.poll, .available, .collect]).map PostOffice.aborted =
      some true := by
  -- The packet is mail, and so neither empty nor too long.
  have genuine : Genuine hostName numBoxes (pktHdr, mailHdr.toBytes ++ data) :=
    ⟨mailHdr, data, posted, rfl⟩
  have full := genuine.length_ne
  have fits := genuine.length_le
  have counted := genuine.counted
  dsimp only at full fits counted
  -- The interrupt reads the packet, and the worker is told of it.
  have read : office.poll hostName = { office with
      socket := []
      inHdr := pktHdr
      inbox := overlay (mailHdr.toBytes ++ data) office.inbox
      read := office.read ++ [(Mail.ofPacket pktHdr (mailHdr.toBytes ++ data)).letter]
      messageAvailable := ⟨1, []⟩ } := by
    unfold poll
    rw [if_neg (not_not.mpr empty), socket]
    dsimp only
    rw [packetOf_wire posted.packetLength]
    dsimp only
    rw [if_pos ⟨posted.toHost, fits⟩]
    simp [callBack, nothing, Semaphore.v, Semaphore.new]
  -- What it finds in its buffer is the mail, which is for no box that there is.
  have mail : ∀ held, Mail.ofPacket pktHdr (overlay
      ((overlay (mailHdr.toBytes ++ data) office.inbox).take pktHdr.length.toNat) held) =
        ⟨pktHdr, mailHdr, data⟩ := by
    intro held
    rw [take_overlay counted]
    exact Mail.ofPacket_toBytes pktHdr posted.mailLength _
  -- The third event fails, since the box does not exist.
  have failed := collect_nobox
    { office.poll hostName with messageAvailable := ⟨0, []⟩, worker := .ready }
    ⟨pktHdr, mailHdr, data⟩ (by simp only [receive, read, if_pos full, mail]) (by
      rw [read]
      exact nobox)
  -- The worker sees the packet.
  have available : work hostName (office.poll hostName) .available =
      some { office.poll hostName with messageAvailable := ⟨0, []⟩, worker := .ready } := by
    simp [work, PostOffice.step, read, waiting, Semaphore.test]
  have polled : work hostName office .poll = some (office.poll hostName) := rfl
  -- The three events, one after the other.
  rw [replay_cons polled, replay_cons available]
  simp only [replay, work, PostOffice.step, if_true, failed, Option.map_some, Option.bind_some]

end PostOffice

namespace PostSystem

variable {sys next : PostSystem Thread}

/-- What a machine does on its own changes no other machine. -/
theorem replay_work {hostName : Word} {events : List (PostEvent Thread)} : ∀ {office},
    replay (PostOffice.work hostName) (sys.office hostName) events = some office →
    replay PostSystem.step sys (events.map (hostName, ·)) =
      some { office := Function.update sys.office hostName office } := by
  -- Over the events of one host, while the others stay where they are.
  induction events generalizing sys with
  | nil =>
    intro office ran
    cases ran
    simp [replay]
  | cons event rest ih =>
    intro office ran
    obtain ⟨middle, worked, ran⟩ := Option.bind_eq_some_iff.mp ran
    -- The event is one of the machine by itself, which sends nothing.
    unfold PostOffice.work at worked
    split at worked
    · rename_i stepped
      cases worked
      -- The whole system takes that step.
      have first : sys.step (hostName, event) =
          some { office := Function.update sys.office hostName middle } := by
        unfold PostSystem.step
        rw [stepped]
      rw [List.map_cons, replay_cons first]
      have later := @ih { office := Function.update sys.office hostName middle } office
        (by simpa using ran)
      rw [later]
      simp
    · -- A step that sends is not of this kind.
      cases worked

/-- Mail may be sent to boxes that exist, and one message to wherever it is for. -/
def SendsAlso (toHost : Word) (mailHdr : MailHeader) (sys : PostSystem Thread)
    (located : Word × PostEvent Thread) : Prop :=
  sys.Addressed located ∨ ∃ thread data, located.2 = .send thread toHost mailHdr data

/-- No assertion has failed: of the network, of the postal worker, of a message or of `Receive`. -/
def Unharmed (sys : PostSystem Thread) : Prop :=
  ∀ hostName, (sys.office hostName).aborted = false ∧
    ∀ box, ∀ letter ∈ sys.received hostName box, letter.mailHdr.length.toNat ≤ maxMailSize

/-- The letter in a packet that was sent as mail is no longer than a message may be. -/
theorem letterOf_small {hostName : Word} {numBoxes : Nat} {packet : PacketHeader × List Byte}
    (genuine : Genuine hostName numBoxes packet) :
    (letterOf packet).mailHdr.length.toNat ≤ maxMailSize := by
  obtain ⟨mailHdr, data, posted, same⟩ := genuine
  have mail := Mail.ofPacket_toBytes packet.1 posted.mailLength []
  rw [List.append_nil, ← same] at mail
  rw [letterOf, mail]
  exact posted.mailLength.trans_le posted.small

variable [Fintype Thread] {numBoxes : Word → Nat}

/-- All mail that has got into a socket is no longer than a message may be. -/
def Small (sys : PostSystem Thread) : Prop :=
  ∀ hostName, ∀ letter ∈ (sys.office hostName).arrived, letter.mailHdr.length.toNat ≤ maxMailSize

/-- Every step sends nothing but mail of a length that is allowed. -/
theorem Small.step (light : sys.Small) (inv : sys.Invariant numBoxes)
    {located : Word × PostEvent Thread} (addressed : sys.Addressed located)
    (stepped : sys.step located = some next) : next.Small := by
  obtain ⟨hostName, event⟩ := located
  -- The machine itself changes nothing of what has arrived.
  have own : ∀ office sent, (sys.office hostName).step hostName event = some (office, sent) →
      Small { office := Function.update sys.office hostName office } := by
    intro office sent worked other letter member
    by_cases same : other = hostName
    · simp only [same, Function.update_self, PostOffice.step_arrived worked] at member
      exact light hostName letter member
    · simp only [Function.update_of_ne same] at member
      exact light other letter member
  rcases step_cases stepped with ⟨office, worked, rfl⟩ | ⟨office, datagram, worked, rfl⟩
  · -- Nothing was sent.
    exact own office none worked
  · -- What is delivered is mail, and mail is of a length that is allowed.
    obtain ⟨genuine, same⟩ := (inv.works addressed worked).2 datagram rfl
    intro other letter member
    by_cases target : other = datagram.toHost
    · simp only [deliver, target, Function.update_self, List.mem_append,
        List.mem_singleton] at member
      -- The letter that was there before.
      rcases member with before | last
      · exact own office (some datagram) worked datagram.toHost letter before
      · -- The letter that has just come.
        rw [last, ← same]
        exact letterOf_small genuine
    · simp only [deliver, Function.update_of_ne target] at member
      exact own office (some datagram) worked other letter member

/-- Machines among which all mail can be delivered come to no harm. -/
theorem unharmed_of_kept (inv : sys.Invariant numBoxes) (light : sys.Small) : sys.Unharmed := by
  intro hostName
  have incoming := (inv hostName).incoming
  -- The first half: no assertion has failed.
  refine ⟨incoming.sound, fun box letter member => light hostName letter ?_⟩
  -- What has been received has been read, and what has been read has arrived.
  have boxed : letter ∈ (sys.office hostName).boxed box := by
    rw [PostOffice.boxed, SynchListSystem.pipeline, ← (incoming.lists box).fifo, List.map_append,
      List.map_append]
    exact List.mem_append_left _ (List.mem_append_left _ member)
  have read : letter ∈ (sys.office hostName).read.filter (PostOffice.isFor box) := by
    rw [incoming.accounted box]
    exact List.mem_append_left _ boxed
  -- The letter is one of those that have arrived, and these are small.
  rw [incoming.arrived]
  exact List.mem_append_left _ (List.mem_filter.mp read).1

omit [Fintype Thread] in
/-- A message for a box that does not exist can be sent so that an assertion fails. -/
theorem harmed_of_nobox (thread : Thread) (inHdr : Word → PacketHeader)
    (inbox buffer : Word → List Byte) {toHost : Word} {mailHdr : MailHeader}
    (small : mailHdr.length.toNat ≤ maxMailSize) (nonneg : 0 ≤ mailHdr.toBox.toInt)
    (nobox : numBoxes toHost ≤ mailHdr.toBox.toInt) :
    ∃ events sys, EveryStep step (SendsAlso toHost mailHdr)
        (.boot numBoxes inHdr inbox buffer : PostSystem Thread) events ∧
      replay step (.boot numBoxes inHdr inbox buffer) events = some sys ∧
      (sys.office toHost).aborted = true := by
  -- The message comes from another machine.
  obtain ⟨host, apart⟩ : ∃ host : Word, host ≠ toHost := by
    by_cases zero : toHost = 0
    · exact ⟨1, by rw [zero]; decide⟩
    · exact ⟨0, Ne.symm zero⟩
  -- Data of just the length that the header says.
  let data : List Byte := .replicate mailHdr.length.toNat 0
  have held : mailHdr.length.toNat ≤ data.length := by simp [data]
  -- For one box more than there is, the message would be mail.
  have posted : Posted toHost (mailHdr.toBox.toInt + 1).toNat
      ⟨toHost, host, mailHdr.length + BitVec.ofNat 32 sizeofHeader⟩ mailHdr
      (data.take mailHdr.length.toNat) :=
    @PostOffice.posted_send _ (fun _ => (mailHdr.toBox.toInt + 1).toNat) toHost mailHdr data small
      nonneg held (by omega)
  -- The sender prepares the packet, and then the receiver takes it.
  let front := (PostOffice.preparing thread toHost mailHdr data).map (host, ·)
  let back : List (Word × PostEvent Thread) := [.poll, .available, .collect].map (toHost, ·)
  -- All these events are allowed.
  have guarded : ∀ located ∈ front ++ (host, .transmit thread false []) :: back,
      ∀ sys : PostSystem Thread, sys.SendsAlso toHost mailHdr located := by
    intro located member sys
    simp only [front, back, PostOffice.preparing, List.map_cons, List.map_nil, List.cons_append,
      List.nil_append, List.mem_cons, List.not_mem_nil, or_false] at member
    rcases member with rfl | rfl | rfl | rfl | rfl | rfl | rfl | rfl
    -- The first event is the call of `Send`, and none of the others is.
    · exact .inr ⟨thread, data, rfl⟩
    all_goals exact .inl trivial
  -- The sender comes to the transmission.
  have first := @replay_work _ _ (boot numBoxes inHdr inbox buffer) host _ _
    (PostOffice.replay_preparing (numBoxes host) (inHdr host) (inbox host) (buffer host) thread
      toHost small nonneg held)
  -- And the packet goes out.
  obtain ⟨sender, letter, transmitted⟩ := PostOffice.prepared_transmits (numBoxes host)
    (inHdr host) (inbox host) (buffer host) thread posted
  let sending : PostSystem Thread := ⟨Function.update
    (boot numBoxes inHdr inbox buffer : PostSystem Thread).office host
    (PostOffice.prepared (.new (numBoxes host) (inHdr host) (inbox host) (buffer host)) host thread
      toHost mailHdr data)⟩
  let arrived : PostSystem Thread := deliver { office := Function.update sending.office host sender }
    ⟨toHost, wire ⟨toHost, host, mailHdr.length + BitVec.ofNat 32 sizeofHeader⟩ mailHdr
      (data.take mailHdr.length.toNat) [], letter⟩
  -- The whole system takes that step.
  have second : sending.step (host, .transmit thread false []) = some arrived := by
    unfold PostSystem.step
    simp only [sending, Function.update_self]
    rw [transmitted]
  -- The machine that the message is for has done nothing yet.
  have fresh : arrived.office toHost =
      { (.new (numBoxes toHost) (inHdr toHost) (inbox toHost) (buffer toHost) :
          PostOffice Thread) with
        socket := [wire ⟨toHost, host, mailHdr.length + BitVec.ofNat 32 sizeofHeader⟩ mailHdr
          (data.take mailHdr.length.toNat) []]
        arrived := [letter] } := by
    simp only [arrived, deliver, Function.update_self, sending, Function.update_of_ne apart.symm]
    rfl
  -- The worker takes the message, and its assertion fails.
  have failed : (replay (PostOffice.work toHost) (arrived.office toHost)
      [.poll, .available, .collect]).map PostOffice.aborted = some true := by
    rw [fresh]
    exact PostOffice.replay_collecting posted rfl rfl rfl rfl nobox
  obtain ⟨receiver, ran, aborted⟩ := Option.map_eq_some_iff.mp failed
  -- The three parts of the run, put together.
  have whole : replay step (boot numBoxes inHdr inbox buffer)
      (front ++ (host, .transmit thread false []) :: back) =
        some ⟨Function.update arrived.office toHost receiver⟩ := by
    rw [replay_append first, replay_cons second]
    exact replay_work ran
  exact ⟨_, _, everyStep_of_mem guarded _, whole, by simpa using aborted⟩

end PostSystem

/--
No sender can crash a receiver as long as mail is for a box that there is.

Take any message that `Send` accepts. Whatever else is sent to boxes that exist, and however many
copies of the message are sent by whom, no assertion fails on any machine, exactly if the machine
that the message is for has its box.
-/
theorem send_harmless_iff [Fintype Thread] (thread : Thread) (numBoxes : Word → Nat)
    (inHdr : Word → PacketHeader) (inbox buffer : Word → List Byte) (toHost : Word)
    (mailHdr : MailHeader)
    (accepted : mailHdr.length.toNat ≤ maxMailSize ∧ 0 ≤ mailHdr.toBox.toInt) :
    (∀ events sys, EveryStep PostSystem.step (PostSystem.SendsAlso toHost mailHdr)
        (.boot numBoxes inHdr inbox buffer : PostSystem Thread) events →
      replay PostSystem.step (.boot numBoxes inHdr inbox buffer) events = some sys →
        sys.Unharmed) ↔
      mailHdr.toBox.toInt < numBoxes toHost := by
  constructor
  · -- A message for a box that does not exist would harm somebody.
    intro harmless
    by_contra nobox
    have missing : numBoxes toHost ≤ mailHdr.toBox.toInt := by omega
    obtain ⟨events, sys, sends, reached, aborted⟩ := PostSystem.harmed_of_nobox thread inHdr inbox
      buffer accepted.1 accepted.2 missing
    have sound := (harmless events sys sends reached toHost).1
    rw [aborted] at sound
    cases sound
  · -- With all boxes there, the invariant holds along the run.
    intro boxed events sys sends reached
    -- Nothing has arrived at the start.
    have start : (PostSystem.boot numBoxes inHdr inbox buffer : PostSystem Thread).Small := by
      intro hostName letter member
      cases member
    -- Every step keeps what is known of all machines.
    have step : ∀ (state : PostSystem Thread) located next,
        state.Invariant numBoxes ∧ state.Small → state.SendsAlso toHost mailHdr located →
        state.step located = some next → next.Invariant numBoxes ∧ next.Small := by
      intro state located next both sends stepped
      have addressed : state.Addressed located := by
        rcases sends with addressed | ⟨thread, data, same⟩
        · exact addressed
        · -- The one message is for a box that there is, too.
          unfold PostSystem.Addressed
          rw [same]
          dsimp only
          rw [(both.1 toHost).boxes]
          exact boxed
      exact ⟨both.1.step addressed stepped, both.2.step both.1 addressed stepped⟩
    have kept := replay_guarded step ⟨PostSystem.invariant_boot inHdr inbox buffer, start⟩ sends
      reached
    exact PostSystem.unharmed_of_kept kept.1 kept.2

/-- Two bytes for the one box of a machine arrive there and do no harm. -/
theorem send_harmless_one :
    ∃ sys : PostSystem Bool, replay PostSystem.step
        (.boot (fun _ => 1) (fun _ => ⟨0, 0, 0⟩) (fun _ => []) fun _ => [])
        [(0, .send false 1 ⟨0, 5, 2⟩ [7, 8]), (0, .lock (.acquire false)), (0, .lock (.p false)),
          (0, .lock (.hold false)), (0, .transmit false false []), (1, .poll), (1, .available),
          (1, .collect)] = some sys ∧ sys.Unharmed := by
  -- The run is evaluated, and it is one of those the theorem speaks of.
  obtain ⟨sys, reached⟩ : ∃ sys : PostSystem Bool, replay PostSystem.step
      (.boot (fun _ => 1) (fun _ => ⟨0, 0, 0⟩) (fun _ => []) fun _ => [])
      [(0, .send false 1 ⟨0, 5, 2⟩ [7, 8]), (0, .lock (.acquire false)), (0, .lock (.p false)),
        (0, .lock (.hold false)), (0, .transmit false false []), (1, .poll), (1, .available),
        (1, .collect)] = some sys := Option.isSome_iff_exists.mp (by decide +kernel)
  refine ⟨sys, reached, (send_harmless_iff true (fun _ => 1) (fun _ => ⟨0, 0, 0⟩) (fun _ => [])
    (fun _ => []) 1 ⟨0, 5, 2⟩ ⟨by decide, by decide⟩).mpr (by decide) _ sys ?_ reached⟩
  apply everyStep_of_mem
  intro located member state
  simp only [List.mem_cons, List.not_mem_nil, or_false] at member
  rcases member with rfl | rfl | rfl | rfl | rfl | rfl | rfl | rfl
  -- The first event is the message itself, and none of the others sends anything.
  · exact .inr ⟨false, [7, 8], rfl⟩
  all_goals exact .inl trivial

/-- Two bytes for box 3 of a machine with one box are sent, and the postal worker aborts. -/
theorem send_harms_nobox :
    ∃ sys : PostSystem Bool, replay PostSystem.step
        (.boot (fun _ => 1) (fun _ => ⟨0, 0, 0⟩) (fun _ => []) fun _ => [])
        [(0, .send false 1 ⟨3, 5, 2⟩ [7, 8]), (0, .lock (.acquire false)), (0, .lock (.p false)),
          (0, .lock (.hold false)), (0, .transmit false false []), (1, .poll), (1, .available),
          (1, .collect)] = some sys ∧
      (sys.office 0).aborted = false ∧ (sys.office 1).aborted = true := by
  -- The run is evaluated.
  have evaluated : (replay PostSystem.step
      (.boot (fun _ => 1) (fun _ => ⟨0, 0, 0⟩) (fun _ => []) fun _ => [])
      [(0, .send false 1 ⟨3, 5, 2⟩ [7, 8]), (0, .lock (.acquire false)), (0, .lock (.p false)),
        (0, .lock (.hold false)), (0, .transmit false false []), (1, .poll), (1, .available),
        (1, .collect)]).map (fun sys => ((sys.office 0).aborted, (sys.office 1).aborted)) =
          some (false, true) := by decide +kernel
  obtain ⟨sys, reached, aborted⟩ := Option.map_eq_some_iff.mp evaluated
  exact ⟨sys, reached, Prod.mk.inj aborted⟩

end

end Nachos
