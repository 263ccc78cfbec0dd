import Nachos.Machine.Console

/-! How far the keyboard is with a stream of bytes, and that it reads them in order. -/

namespace Nachos

namespace ConsoleInput

variable {console : ConsoleInput} {stream taken : List Byte}

/-- Nothing is buffered, and the next byte will be read. -/
structure Polls (console : ConsoleInput) (stream taken : List Byte) : Prop where
  incoming : console.incoming.toInt = eof
  pending : console.pending = 1
  rest : stream = taken ++ console.readFile

/-- A character is buffered, or the end of the file was met, and nothing will be read for now. -/
structure Offers (console : ConsoleInput) (stream taken : List Byte) : Prop where
  pending : console.pending = 0
  rest : stream = taken ++ console.incoming :: console.readFile ∨
    (console.incoming.toInt = eof ∧ console.readFile = [] ∧ taken = stream)

/-- Nothing will be read any more, because nothing is left. -/
structure Ended (console : ConsoleInput) (stream taken : List Byte) : Prop where
  pending : console.pending = 0
  rest : console.readFile = []
  all : taken <+: stream ++ [eofChar]

/-- A new keyboard polls. -/
theorem polls_new (stream : List Byte) : (new stream).Polls stream [] :=
  ⟨toInt_eofChar, rfl, rfl⟩

/-- The assertion holds while the keyboard polls, and a character is offered if it calls back. -/
theorem Polls.interrupt (polls : console.Polls stream taken) (pollFile : Bool) :
    ∃ after called, console.interrupt pollFile = some (after, called) ∧
      (called = false → after.Polls stream taken) ∧
      (called = true → after.Offers stream taken) := by
  obtain ⟨incoming, pending, rest⟩ := polls
  unfold ConsoleInput.interrupt callBack
  rw [if_pos incoming]
  cases pollFile with
  | false => exact ⟨_, false, rfl, fun _ => ⟨incoming, by simp [pending], rest⟩, nofun⟩
  | true =>
    rw [if_pos rfl]
    -- At the end of the file it is the end of the file that is offered.
    cases file : console.readFile with
    | nil =>
      rw [file, List.append_nil] at rest
      exact ⟨_, true, rfl, nofun, fun _ => ⟨by simp [pending], .inr ⟨incoming, rfl, rest.symm⟩⟩⟩
    | cons c bytes =>
      rw [file] at rest
      exact ⟨_, true, rfl, nofun, fun _ => ⟨by simp [pending], .inl rest⟩⟩

/-- If only the last byte of the stream may be an EOF, one that is offered has nothing after it. -/
theorem Offers.last (offers : console.Offers stream taken)
    (last : ∀ c ∈ stream.dropLast, c.toInt ≠ eof) (ends : console.incoming.toInt = eof) :
    console.readFile = [] := by
  rcases offers.rest with rest | ⟨-, file, -⟩
  · cases file : console.readFile with
    | nil => rfl
    | cons c bytes =>
      have early : console.incoming ∈ stream.dropLast := by simp [rest, file]
      exact absurd ends (last console.incoming early)
  · exact file

/-- A character that is no EOF keeps the keyboard going. -/
theorem Offers.getChar_polls (offers : console.Offers stream taken)
    (char : console.incoming.toInt ≠ eof) :
    console.getChar.2.Polls stream (taken ++ [console.getChar.1]) := by
  -- There is a character, so the next one is scheduled.
  have rest : stream = taken ++ console.incoming :: console.readFile := by
    rcases offers.rest with rest | ⟨refuted, -⟩
    · exact rest
    · exact absurd refuted char
  refine ⟨toInt_eofChar, by simp [ConsoleInput.getChar, char, offers.pending], ?_⟩
  rw [rest]
  simp [ConsoleInput.getChar]

/-- What is offered next is the next byte of the stream, or the EOF at its end. -/
theorem Offers.taken_prefix (offers : console.Offers stream taken) :
    taken ++ [console.incoming] <+: stream ++ [eofChar] := by
  rcases offers.rest with rest | ⟨ends, -, rfl⟩
  · rw [rest, List.append_assoc, List.cons_append]
    exact (List.prefix_append_right_inj taken).mpr (List.prefix_append [_] _)
  · have stored : console.incoming = eofChar := BitVec.eq_of_toInt_eq (by rw [ends, toInt_eofChar])
    simp [stored]

/-- A character that is no EOF keeps the keyboard going, and after an EOF nothing is left. -/
theorem Offers.getChar (offers : console.Offers stream taken)
    (last : ∀ c ∈ stream.dropLast, c.toInt ≠ eof) :
    console.getChar.2.Polls stream (taken ++ [console.getChar.1]) ∨
      console.getChar.2.Ended stream (taken ++ [console.getChar.1]) := by
  by_cases ends : console.incoming.toInt = eof
  · exact .inr ⟨by simp [ConsoleInput.getChar, ends, offers.pending], offers.last last ends,
      offers.taken_prefix⟩
  · exact .inl (offers.getChar_polls ends)

/-- What was taken so far is the stream in order, and at its end an EOF. -/
theorem Offers.inOrder (offers : console.Offers stream taken) : taken <+: stream ++ [eofChar] := by
  rcases offers.rest with rest | ⟨-, -, rfl⟩
  · rw [rest, List.append_assoc]
    exact List.prefix_append _ _
  · exact List.prefix_append _ _

end ConsoleInput

end Nachos
