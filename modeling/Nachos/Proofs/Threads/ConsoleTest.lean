import Mathlib.Data.List.Infix
import Nachos.Proofs.Userprog.ConsoleCalls
import Nachos.Theory.Progress

/-! The test echoes everything that is typed up to the first EOF, and can always come to its end. -/

namespace Nachos

section Test

/-- The EOF behind a text is not before its first EOF. -/
theorem takeWhile_eofChar (text : List Byte) :
    (text ++ [eofChar]).takeWhile (·.toInt ≠ eof) = text.takeWhile (·.toInt ≠ eof) := by
  induction text with
  | nil => simp
  | cons c text ih => simp only [List.cons_append, List.takeWhile_cons, ih]

/-- Characters at the front of a text are at the front of its part before the first EOF. -/
theorem chars_upToEof {text front : List Byte} (prefixed : front <+: text ++ [eofChar])
    (chars : ∀ c ∈ front, c.toInt ≠ eof) : front <+: text.takeWhile (·.toInt ≠ eof) := by
  obtain ⟨rest, whole⟩ := prefixed
  rw [← takeWhile_eofChar, ← whole, List.takeWhile_append_of_pos (by simpa using chars)]
  exact List.prefix_append _ _

/-- Characters with an EOF behind them are all there is before the first EOF. -/
theorem chars_whole {text front : List Byte} {ch : Byte} (ends : ch.toInt = eof)
    (prefixed : front ++ [ch] <+: text ++ [eofChar]) (chars : ∀ c ∈ front, c.toInt ≠ eof) :
    front = text.takeWhile (·.toInt ≠ eof) := by
  obtain ⟨rest, whole⟩ := prefixed
  -- The first character that is left out is the EOF.
  have stops : ([ch] ++ rest).takeWhile (·.toInt ≠ eof) = [] :=
    List.takeWhile_cons_of_neg (by simp [ends])
  rw [← takeWhile_eofChar, ← whole, List.append_assoc,
    List.takeWhile_append_of_pos (by simpa using chars), stops, List.append_nil]

/-- What has been returned is at the front of the text, and none of it is an EOF. -/
theorem SynchConsoleSystem.Typing.returned {sys : SynchConsoleSystem Unit} {text : List Byte}
    (typing : sys.Typing text) :
    sys.returned <+: text ++ [eofChar] ∧ ∀ c ∈ sys.returned, c.toInt ≠ eof := by
  -- What was taken is in order, whichever way the device stands.
  have taken : sys.taken <+: text ++ [eofChar] := by
    rcases typing.inv.device with ⟨-, polls | ended⟩ | ⟨-, offers⟩
    · rw [polls.rest, List.append_assoc]
      exact List.prefix_append _ _
    · exact ended.all
    · exact offers.inOrder
  -- What is in the hand of a thread is taken and not yet returned.
  have returned : sys.returned <+: sys.taken := by
    rcases typing.inv.inHand with ⟨same, -⟩ | ⟨_, ch, -, same⟩
    · rw [same]
    · rw [same]
      exact List.prefix_append _ _
  exact ⟨returned.trans taken, fun c member => typing.chars c (returned.subset member)⟩

/-- The character that a call has in hand is none of the EOFs. -/
theorem SynchConsoleSystem.Typing.inHand_ne {sys : SynchConsoleSystem Unit} {text : List Byte}
    (typing : sys.Typing text) {ch : Byte} (leaving : sys.stage () = .leaving ch) :
    ch.toInt ≠ eof := by
  rcases typing.inv.inHand with ⟨-, nobody⟩ | ⟨owner, got, there, same⟩
  · exact absurd leaving (nobody () ch)
  · rw [leaving] at there
    cases there
    exact typing.chars ch (by simp [same])

namespace ConsoleTest

open SynchConsoleSystem SynchOutputSystem

variable {test next : ConsoleTest} {text : List Byte}

/-- What has been returned and what is on the display, wherever the test stands. -/
def Echoes (text : List Byte) (test : ConsoleTest) : Prop :=
  match test.stage with
  | .read =>
    test.synchConsoleIn.Typing text ∧ test.synchConsoleIn.stage () = .idle ∧
      test.synchConsoleOut.stage () = .idle ∧
      test.synchConsoleIn.returned = test.synchConsoleOut.content
  | .reading =>
    (test.synchConsoleIn.Typing text ∨ ∃ ch,
      test.synchConsoleIn.Closing text test.synchConsoleIn.returned ch) ∧
      test.synchConsoleIn.stage () ≠ .idle ∧ test.synchConsoleOut.stage () = .idle ∧
      test.synchConsoleIn.returned = test.synchConsoleOut.content
  | .echo ch =>
    test.synchConsoleIn.Typing text ∧ test.synchConsoleIn.stage () = .idle ∧
      test.synchConsoleOut.stage () = .idle ∧
      test.synchConsoleIn.returned = test.synchConsoleOut.content ++ [ch]
  | .echoing =>
    test.synchConsoleIn.Typing text ∧ test.synchConsoleIn.stage () = .idle ∧
      test.synchConsoleOut.stage () ≠ .idle ∧
      test.synchConsoleIn.returned = test.synchConsoleOut.content
  | .done =>
    (∃ ch, test.synchConsoleIn.Closing text test.synchConsoleOut.content ch) ∧
      test.synchConsoleIn.stage () = .idle ∧ test.synchConsoleOut.stage () = .idle

/-- What every run keeps. -/
structure Kept (text : List Byte) (test : ConsoleTest) : Prop where
  display : test.synchConsoleOut.Invariant
  livelyIn : test.synchConsoleIn.lock.Lively
  livelyOut : test.synchConsoleOut.lock.Lively
  echoes : test.Echoes text

/-- The keyboard takes characters, or has met an EOF. -/
theorem Echoes.keyboard (echoes : test.Echoes text) :
    test.synchConsoleIn.Typing text ∨ ∃ front ch, test.synchConsoleIn.Closing text front ch := by
  unfold Echoes at echoes
  split at echoes
  · exact .inl echoes.1
  · exact echoes.1.imp_right fun ⟨ch, closing⟩ => ⟨_, ch, closing⟩
  · exact .inl echoes.1
  · exact .inl echoes.1
  · exact .inr ⟨_, echoes.1⟩

/-- Its lock is sound, wherever it stands. -/
theorem Echoes.locked (echoes : test.Echoes text) : test.synchConsoleIn.lock.Invariant := by
  rcases echoes.keyboard with typing | ⟨_, _, closing⟩
  · exact typing.inv.locked
  · exact closing.locked

/-- The test makes its next call. -/
theorem Kept.call_step (kept : test.Kept text) (stepped : test.step .call = some next) :
    next.Kept text := by
  have echoes := kept.echoes
  -- By cases on the stage: the test calls in two of them.
  cases stage : test.stage with
  -- The loop begins again with a call of `GetChar`.
  | read =>
    simp only [step, stage, Option.map_eq_some_iff] at stepped
    obtain ⟨keyboard, called, rfl⟩ := stepped
    simp only [Echoes, stage] at echoes
    obtain ⟨typing, idle, rests, same⟩ := echoes
    have typing' := typing.stays (by simp [idle]) called
    have lively := SynchConsoleSystem.lively_step kept.livelyIn typing.inv.locked called
    simp only [SynchConsoleSystem.step, idle, Option.some.injEq] at called
    subst called
    exact ⟨kept.display, lively, kept.livelyOut, .inl typing', by simp, rests, same⟩
  -- The character goes to `PutChar`.
  | echo ch =>
    simp only [step, stage, Option.map_eq_some_iff] at stepped
    obtain ⟨display, called, rfl⟩ := stepped
    simp only [Echoes, stage] at echoes
    obtain ⟨typing, idle, rests, same⟩ := echoes
    have inv := SynchOutputSystem.invariant_step kept.display called
    have lively := SynchOutputSystem.lively_step kept.livelyOut kept.display called
    simp only [SynchOutputSystem.step, rests, Option.some.injEq] at called
    subst called
    refine ⟨inv, kept.livelyIn, lively, typing, idle, by simp, ?_⟩
    -- The character is about to be on the display now.
    rw [same]
    simp [content, rests, SynchOutputStage.left]
  -- In the other stages the test is in a call, or done.
  | reading | echoing | done => simp [step, stage] at stepped

/-- Nothing is returned while the test is not in `GetChar`, and no EOF is taken. -/
theorem typing_rests {sys sys' : SynchConsoleSystem Unit} {event : SynchConsoleEvent Unit}
    (typing : sys.Typing text) (idle : sys.stage () = .idle)
    (noCall : ∀ thread, event ≠ .call thread) (stepped : sys.step event = some sys') :
    sys.returns event = none ∧ sys'.Typing text ∧ sys'.stage () = .idle ∧
      sys'.returned = sys.returned := by
  rcases SynchConsoleSystem.returns_cases noCall (fun _ => typing.calm) stepped with
    ⟨ch, -, leaving, -, -⟩ | ⟨nothing, returned, stays⟩
  · rw [idle] at leaving
    cases leaving
  · refine ⟨nothing, ?_, stays.mpr idle, returned⟩
    exact typing.stays (by simp [idle]) stepped

/-- A step at the keyboard, which may end a call of `GetChar`. -/
theorem Kept.keyboard_step (kept : test.Kept text) {event : SynchConsoleEvent Unit}
    (noCall : ∀ thread, event ≠ .call thread) {sys : SynchConsoleSystem Unit}
    (stepped : test.synchConsoleIn.step event = some sys) :
    Kept text { test with
      synchConsoleIn := sys
      stage := got test.stage (test.synchConsoleIn.returns event) } := by
  have echoes := kept.echoes
  refine ⟨kept.display, SynchConsoleSystem.lively_step kept.livelyIn echoes.locked stepped,
    kept.livelyOut, ?_⟩
  -- By cases on the stage.
  cases stage : test.stage with
  | read | echo ch | echoing =>
    -- The test is not in `GetChar`, so the keyboard changes nothing of what it has returned.
    simp only [Echoes, stage] at echoes
    obtain ⟨typing, idle, display, same⟩ := echoes
    obtain ⟨nothing, typing, idle, returned⟩ := typing_rests typing idle noCall stepped
    rw [nothing]
    exact ⟨typing, idle, display, returned.trans same⟩
  | reading =>
    simp only [Echoes, stage] at echoes
    -- The call returns an EOF or a character, or nothing yet.
    obtain ⟨typing | ⟨ch, closing⟩, inside, rests, same⟩ := echoes
    · rcases SynchConsoleSystem.returns_cases noCall (fun _ => typing.calm) stepped with
        ⟨ch, returns, leaving, idle, returned⟩ | ⟨nothing, returned, stays⟩
      · -- A character is returned, and is to be echoed.
        have char := typing.inHand_ne leaving
        have typing' := typing.stays (by simp [leaving]) stepped
        rw [returns, got, if_pos char]
        exact ⟨typing', idle, rests, by rw [returned, same]⟩
      · -- Nothing is returned yet, and the call goes on.
        have inside' : sys.stage () ≠ .idle := fun idle => inside (stays.mp idle)
        rw [nothing]
        refine ⟨?_, inside', rests, returned.trans same⟩
        -- The EOF may have been met in this step.
        rcases typing.step stepped with typing' | ⟨-, front, ch, closing⟩
        · exact .inl typing'
        · rcases closing.call with ⟨-, back, -⟩ | ⟨idle, -⟩
          · exact .inr ⟨ch, back ▸ closing⟩
          · exact absurd idle inside'
    · -- The EOF was met before, and is still to be returned.
      have closing' := closing.step noCall stepped
      rcases SynchConsoleSystem.returns_cases noCall closing.calm stepped with
        ⟨last, returns, leaving, idle, -⟩ | ⟨nothing, returned, stays⟩
      · -- The EOF is returned, and ends the loop.
        have ends : ¬ last.toInt ≠ eof := by
          rcases closing.call with ⟨there, -⟩ | ⟨idle, -⟩
          · rw [there] at leaving
            cases leaving
            exact not_not.mpr closing.ends
          · exact absurd idle inside
        rw [returns, got, if_neg ends]
        exact ⟨⟨ch, same ▸ closing'⟩, idle, rests⟩
      · -- It is not returned yet.
        rw [nothing]
        exact ⟨.inr ⟨ch, returned.symm ▸ closing'⟩, fun idle => inside (stays.mp idle), rests,
          returned.trans same⟩
  -- The loop is over, and nobody calls any more.
  | done =>
    simp only [Echoes, stage] at echoes
    obtain ⟨⟨ch, closing⟩, idle, rests⟩ := echoes
    rcases SynchConsoleSystem.returns_cases noCall closing.calm stepped with
      ⟨last, -, leaving, -, -⟩ | ⟨nothing, -, stays⟩
    · -- The thread is in no call, so nothing is returned.
      rw [idle] at leaving
      cases leaving
    · rw [nothing]
      exact ⟨⟨ch, closing.step noCall stepped⟩, stays.mpr idle, rests⟩

/-- A step at the display, which may end a call of `PutChar`. -/
theorem Kept.display_step (kept : test.Kept text) {event : SynchOutputEvent Unit}
    (noCall : ∀ thread ch, event ≠ .call thread ch) {sys : SynchOutputSystem Unit}
    (stepped : test.synchConsoleOut.step event = some sys) :
    Kept text { test with
      synchConsoleOut := sys
      stage := if test.synchConsoleOut.returns event then .read else test.stage } := by
  have echoes := kept.echoes
  refine ⟨SynchOutputSystem.invariant_step kept.display stepped, kept.livelyIn,
    SynchOutputSystem.lively_step kept.livelyOut kept.display stepped, ?_⟩
  -- What is on the display changes, and the call may return.
  obtain ⟨shown, ⟨returns, leaving, idle'⟩ | ⟨nothing, stays⟩⟩ :=
    SynchOutputSystem.returns_cases kept.display noCall stepped
  · -- Only from a call of `PutChar` can the test return.
    rw [returns, if_pos rfl]
    cases stage : test.stage with
    | echoing =>
      simp only [Echoes, stage] at echoes
      obtain ⟨typing, idle, -, same⟩ := echoes
      exact ⟨typing, idle, idle', same.trans shown.symm⟩
    -- In the other stages the test is not in `PutChar`.
    | read | reading | echo ch | done => simp_all [Echoes]
  · -- The call goes on, or there is none.
    rw [nothing, if_neg Bool.false_ne_true]
    unfold Echoes at echoes ⊢
    cases stage : test.stage with
    -- The test waits at the keyboard, and the display rests.
    | reading =>
      simp only [stage] at echoes ⊢
      obtain ⟨keyboard, inside, rests, same⟩ := echoes
      exact ⟨keyboard, inside, stays.mpr rests, same.trans shown.symm⟩
    | read | echo ch | echoing | done => simp_all

/-- Every step keeps that. -/
theorem Kept.step {event : ConsoleTestEvent} (kept : test.Kept text)
    (stepped : test.step event = some next) : next.Kept text := by
  -- By cases on who takes the step.
  cases event with
  | call => exact kept.call_step stepped
  | keyboard event =>
    by_cases noCall : ∀ thread, event ≠ .call thread
    · cases event with
      | call thread => exact absurd rfl (noCall thread)
      | lock _ | p _ | getChar _ | interrupt _ =>
        simp only [ConsoleTest.step, Option.map_eq_some_iff] at stepped
        obtain ⟨sys, went, rfl⟩ := stepped
        exact kept.keyboard_step noCall went
    · -- A call in the place of the test is refused.
      obtain ⟨thread, rfl⟩ := not_forall_not.mp noCall
      cases stepped
  | display event =>
    cases event with
    | call thread ch => cases stepped
    | lock _ | putChar _ | p _ | interrupt =>
      simp only [ConsoleTest.step, Option.map_eq_some_iff] at stepped
      obtain ⟨sys, went, rfl⟩ := stepped
      exact kept.display_step (fun _ _ begun => by cases begun) went

/-- The test starts in it. -/
theorem kept_start (text : List Byte) : (start text).Kept text := by
  refine ⟨SynchOutputSystem.invariant_new, fun queued => absurd rfl queued,
    fun queued => absurd rfl queued, ?_, rfl, rfl, rfl⟩
  refine ⟨SynchConsoleSystem.invariant_new text, ?_, fun none => ?_⟩
  · intro c member
    cases member
  · cases none

/-- Every run keeps it. -/
theorem kept_reached {events : List ConsoleTestEvent}
    (reached : replay ConsoleTest.step (.start text) events = some test) : test.Kept text :=
  replay_invariant (fun _ _ _ kept stepped => Kept.step kept stepped) (kept_start text) reached

/-- No more than the text and an EOF is ever returned. -/
theorem Kept.returned_le (kept : test.Kept text) :
    test.synchConsoleIn.returned.length ≤ text.length + 1 := by
  have all : (text ++ [eofChar]).length = text.length + 1 := by simp
  rcases kept.echoes.keyboard with typing | ⟨front, ch, closing⟩
  · exact all ▸ typing.returned.1.length_le
  · have taken := all ▸ closing.taken.length_le
    rcases closing.call with ⟨-, returned, -⟩ | ⟨-, returned⟩
    · rw [returned]
      exact (List.prefix_append front [ch]).length_le.trans taken
    · rw [returned]
      exact taken

/-- What is ahead of the test: the characters to be returned, and the rest of its turn. -/
def rank (text : List Byte) (test : ConsoleTest) : Nat :=
  -- A turn of the loop, with both calls, is shorter than 40 steps.
  40 * (text.length + 1 - test.synchConsoleIn.returned.length) +
    match test.stage with
    | .read => 12
    | .reading => 1 + test.synchConsoleIn.ahead
    | .echo _ => 25
    | .echoing => 13 + test.synchConsoleOut.ahead
    | .done => 0

/-- A step of the keyboard that brings `GetChar` nearer to its return brings the test nearer. -/
theorem Kept.nears_keyboard (kept : test.Kept text) (reading : test.stage = .reading)
    {event : SynchConsoleEvent Unit} {sys : SynchConsoleSystem Unit}
    (noCall : ∀ thread, event ≠ .call thread)
    (calm : test.synchConsoleIn.consoleInput.pending ≠ 0 →
      test.synchConsoleIn.stage () = .idle → test.synchConsoleIn.waitFor.queue = [])
    (stepped : test.synchConsoleIn.step event = some sys)
    (nearer : sys.ahead < test.synchConsoleIn.ahead) :
    ∃ event next, test.step event = some next ∧ next.Kept text ∧
      next.rank text < test.rank text := by
  -- The step is one of the test.
  have kept' := kept.keyboard_step noCall stepped
  refine ⟨.keyboard event, _, ?_, kept', ?_⟩
  · cases event with
    | call thread => exact absurd rfl (noCall thread)
    | lock _ | p _ | getChar _ | interrupt _ =>
      simp only [ConsoleTest.step, stepped, Option.map_some]
  · -- The call returns a character, or comes nearer to it.
    rcases SynchConsoleSystem.returns_cases noCall calm stepped with
      ⟨ch, returns, -, -, returned⟩ | ⟨nothing, returned, -⟩
    · -- One character less is to be returned.
      have bound := kept'.returned_le
      simp only [returned, List.length_append, List.length_singleton] at bound
      simp only [rank, reading, returns, got, returned, List.length_append, List.length_singleton]
      split_ifs <;> dsimp only <;> omega
    · -- Nothing is returned, and the rank is that of the keyboard.
      simp only [rank, reading, nothing, got, returned]
      omega

/-- Until it is done, the test has a step that brings it nearer to its end. -/
theorem Kept.nears (kept : test.Kept text) (unfinished : test.stage ≠ .done) :
    ∃ event next, test.step event = some next ∧ next.Kept text ∧
      next.rank text < test.rank text := by
  have echoes := kept.echoes
  -- By cases on the stage: the test calls, or the device it waits for has a step.
  cases stage : test.stage with
  | read =>
    simp only [Echoes, stage] at echoes
    have called : test.step .call = some { test with
        synchConsoleIn := test.synchConsoleIn.move () .entering
        stage := .reading } := by
      simp [ConsoleTest.step, stage, SynchConsoleSystem.step, echoes.2.1]
    -- The call has more ahead of it than behind, and less than a character is worth.
    refine ⟨.call, _, called, kept.call_step called, ?_⟩
    have bound := SynchConsoleSystem.ahead_le (test.synchConsoleIn.move () .entering)
    simp only [rank, stage]
    change 40 * (text.length + 1 - test.synchConsoleIn.returned.length) + _ < _
    omega
  | echo ch =>
    simp only [Echoes, stage] at echoes
    have called : test.step .call = some { test with
        synchConsoleOut := test.synchConsoleOut.move () (.entering ch)
        stage := .echoing } := by
      simp [ConsoleTest.step, stage, SynchOutputSystem.step, echoes.2.2.1]
    -- The call of `PutChar` has more ahead of it, but less than the echo is worth.
    refine ⟨.call, _, called, kept.call_step called, ?_⟩
    have bound := SynchOutputSystem.ahead_le (test.synchConsoleOut.move () (.entering ch))
    simp only [rank, stage]
    omega
  | reading =>
    simp only [Echoes, stage] at echoes
    obtain ⟨typing | ⟨ch, closing⟩, inside, -⟩ := echoes
    · -- The keyboard still has something to give.
      obtain ⟨event, sys, noCall, stepped, nearer⟩ := typing.nears kept.livelyIn inside
      exact kept.nears_keyboard stage noCall (fun _ => typing.calm) stepped nearer
    · -- Only the EOF is left to be returned.
      rcases closing.call with ⟨leaving, -, placed⟩ | ⟨idle, -⟩
      · obtain ⟨event, sys, noCall, stepped, nearer⟩ :=
          SynchConsoleSystem.nears_leaving closing.locked leaving placed
        exact kept.nears_keyboard stage noCall closing.calm stepped nearer
      · exact absurd idle inside
  | echoing =>
    simp only [Echoes, stage] at echoes
    -- The display has a step.
    obtain ⟨event, sys, noCall, stepped, nearer⟩ :=
      kept.display.nears kept.livelyOut echoes.2.2.1
    refine ⟨.display event, _, ?_, kept.display_step noCall stepped, ?_⟩
    · cases event with
      | call thread ch => exact absurd rfl (noCall thread ch)
      | lock _ | putChar _ | p _ | interrupt =>
        simp only [ConsoleTest.step, stepped, Option.map_some]
    · simp only [rank, stage]
      split_ifs <;> dsimp only <;> omega
  -- There is nothing to come to.
  | done => exact absurd stage unfinished

/-- What is on the display has been typed before the first EOF. -/
theorem Kept.shown (kept : test.Kept text) :
    test.synchConsoleOut.consoleOutput.writeFile <+: text.takeWhile (·.toInt ≠ eof) := by
  have shows : test.synchConsoleOut.consoleOutput.writeFile <+: test.synchConsoleOut.content :=
    List.prefix_append _ _
  have echoes := kept.echoes
  -- The display shows no more than has been returned, and that no more than is before the EOF.
  have typed : ∀ {rest}, test.synchConsoleIn.Typing text →
      test.synchConsoleIn.returned = test.synchConsoleOut.content ++ rest →
      test.synchConsoleOut.consoleOutput.writeFile <+: text.takeWhile (·.toInt ≠ eof) := by
    intro rest typing same
    obtain ⟨prefixed, chars⟩ := typing.returned
    refine shows.trans (List.IsPrefix.trans ?_ (chars_upToEof prefixed chars))
    rw [same]
    exact List.prefix_append _ _
  -- When the EOF has been met, all that is before it has been taken.
  have closed : ∀ {ch}, test.synchConsoleIn.Closing text test.synchConsoleOut.content ch →
      test.synchConsoleOut.consoleOutput.writeFile <+: text.takeWhile (·.toInt ≠ eof) := by
    intro ch closing
    rw [← chars_whole closing.ends closing.taken closing.chars]
    exact shows
  unfold Echoes at echoes
  -- By cases on the stage, each with one of the two.
  split at echoes
  · exact typed echoes.1 (by rw [echoes.2.2.2, List.append_nil])
  · obtain ⟨typing | ⟨ch, closing⟩, -, -, same⟩ := echoes
    · exact typed typing (by rw [same, List.append_nil])
    · exact closed (same ▸ closing)
  · exact typed echoes.1 echoes.2.2.2
  · exact typed echoes.1 (by rw [echoes.2.2.2, List.append_nil])
  · exact closed echoes.1.choose_spec

/-- When the test is done, everything before the first EOF is on the display. -/
theorem Kept.done_shown (kept : test.Kept text) (done : test.stage = .done) :
    test.synchConsoleOut.consoleOutput.writeFile = text.takeWhile (·.toInt ≠ eof) := by
  have echoes := kept.echoes
  simp only [Echoes, done] at echoes
  obtain ⟨⟨ch, closing⟩, -, rests⟩ := echoes
  rw [← chars_whole closing.ends closing.taken closing.chars]
  simp [content, rests, SynchOutputStage.left]

end ConsoleTest

/--
The console test echoes what is typed, in every interleaving of the test and the interrupts.

The display shows the characters typed before the first EOF, in order and without any other, or so
far a front part of them; when the test is done, it shows all of them; until then the test or one
of the devices can always go on; and neither device is ever asked while it is busy.
-/
theorem consoleTest_echoes (text : List Byte) (events : List ConsoleTestEvent) (test : ConsoleTest)
    (reached : replay ConsoleTest.step (.start text) events = some test) :
    test.synchConsoleOut.consoleOutput.writeFile <+: text.takeWhile (·.toInt ≠ eof) ∧
    (test.stage = .done →
      test.synchConsoleOut.consoleOutput.writeFile = text.takeWhile (·.toInt ≠ eof)) ∧
    (test.stage ≠ .done → ∃ event, (test.step event).isSome) ∧
    test.synchConsoleIn.aborted = false ∧ test.synchConsoleOut.aborted = false := by
  have kept := ConsoleTest.kept_reached reached
  -- One part after the other.
  refine ⟨kept.shown, kept.done_shown, fun unfinished => ?_, ?_, kept.display.sound⟩
  · obtain ⟨event, next, stepped, -⟩ := kept.nears unfinished
    exact ⟨event, by simp [stepped]⟩
  · -- The keyboard is at its text, or past the EOF.
    rcases kept.echoes.keyboard with typing | ⟨_, _, closing⟩
    · exact typing.inv.sound
    · exact closing.sound

/-- A call of `GetChar` that the interrupt comes for. -/
def readCall : List ConsoleTestEvent :=
  .call :: [.lock (.acquire ()), .lock (.p ()), .lock (.hold ()), .interrupt true, .p (),
    .getChar (), .lock (.release ()), .lock (.v ())].map .keyboard

/-- A call of `PutChar`, with its interrupt. -/
def echoCall : List ConsoleTestEvent :=
  .call :: [.lock (.acquire ()), .lock (.p ()), .lock (.hold ()), .putChar (), .interrupt, .p (),
    .lock (.release ()), .lock (.v ())].map .display

/-- Two characters are echoed, and then the file ends. -/
theorem consoleTest_echoes_two :
    ∃ test, replay ConsoleTest.step (.start [0x68, 0x69])
        (readCall ++ echoCall ++ readCall ++ echoCall ++ readCall) = some test ∧
      test.stage = .done ∧ test.synchConsoleOut.consoleOutput.writeFile = [0x68, 0x69] := by
  obtain ⟨test, reached, done⟩ : ∃ test, replay ConsoleTest.step (.start [0x68, 0x69])
      (readCall ++ echoCall ++ readCall ++ echoCall ++ readCall) = some test ∧
      test.stage = .done := ⟨_, rfl, rfl⟩
  exact ⟨test, reached, done, (consoleTest_echoes _ _ test reached).2.1 done⟩

/--
The console test can always be brought to its end.

From whatever the test and the interrupts have come to, there is a way on that ends the test, and
then the display shows everything that was typed before the first EOF.
-/
theorem consoleTest_canEnd (text : List Byte) (events : List ConsoleTestEvent) (test : ConsoleTest)
    (reached : replay ConsoleTest.step (.start text) events = some test) :
    ∃ later final, replay ConsoleTest.step test later = some final ∧ final.stage = .done ∧
      final.synchConsoleOut.consoleOutput.writeFile = text.takeWhile (·.toInt ≠ eof) := by
  have kept := ConsoleTest.kept_reached reached
  obtain ⟨later, final, ran, kept, done⟩ := replay_reaches (·.stage = .done)
    (ConsoleTest.rank text) (fun _ kept unfinished => kept.nears unfinished) kept
  exact ⟨later, final, ran, done, kept.done_shown done⟩

/-- It can be ended from where one character has been read and not been echoed yet. -/
theorem consoleTest_canEnd_unechoed :
    ∃ test, replay ConsoleTest.step (.start [0x68, 0x69]) readCall = some test ∧
      test.synchConsoleOut.consoleOutput.writeFile = [] ∧
      ∃ later final, replay ConsoleTest.step test later = some final ∧ final.stage = .done ∧
        final.synchConsoleOut.consoleOutput.writeFile = [0x68, 0x69] := by
  obtain ⟨test, reached, blank⟩ : ∃ test,
      replay ConsoleTest.step (.start [0x68, 0x69]) readCall = some test ∧
      test.synchConsoleOut.consoleOutput.writeFile = [] := ⟨_, rfl, rfl⟩
  exact ⟨test, reached, blank, consoleTest_canEnd _ _ test reached⟩

end Test

end Nachos
