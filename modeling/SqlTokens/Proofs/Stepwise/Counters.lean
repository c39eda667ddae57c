import SqlTokens.Proofs.Reading

/-! # A reader with two counters

    Here a reader keeps its whole input, and two counters that are moved one after the other:
    the offset of the byte that is read next, and the position that is told of it.  An action
    that is refused does not take back what it has done until then; a byte that is collected
    goes into the buffer before it is passed.

    Nothing has to be taken back, because where an action is refused, there is no byte to
    collect (`Counted.collect_on`).  So the counters stay in step, and the reader answers and
    moves as the one without them (`Counted.run_eq`). -/

namespace SqlTokens

/-- A reader that counts for itself. -/
structure Counted where
  input : Bytes
  /-- How many bytes stand before the one that is read next. -/
  offset : Nat
  /-- The position of that byte, counted from one. -/
  position : Nat
  buffer : Bytes
  deriving DecidableEq

namespace Counted

/-- A reader before the first byte of an input, with nothing collected. -/
def start (input : Bytes) : Counted :=
  ⟨input, 0, 1, []⟩

/-- A move of the reader in place: it may be refused, and what it has changed until then
    stays. -/
abbrev Move (α : Type) : Type := ExceptT EndOfInput (StateM Counted) α

namespace Move

/-- The result of a move, and the reader that it leaves. -/
def on {α : Type} (move : Move α) (r : Counted) : Except EndOfInput α × Counted :=
  StateT.run (ExceptT.run move) r

/-- The byte that is read next. -/
def peek? : Move (Option UInt8) := do
  let r ← get
  return r.input[r.offset]?

/-- Moves one counter, and then the other. -/
def countOn : Move Unit := do
  modify fun r => { r with offset := r.offset + 1 }
  modify fun r => { r with position := r.position + 1 }

/-- Moves both counters, unless no byte is left. -/
def pass : Move Unit := do
  let r ← get
  if r.input.length ≤ r.offset then throw ⟨r.position⟩ else countOn

/-- Passes the next byte if it is `b`, and says whether it was. -/
def passIf (b : UInt8) : Move Bool := do
  if (← peek?) = some b then
    pass
    return true
  else
    return false

/-- Puts the next byte into the buffer, if there is one, and then passes it. -/
def collect : Move Unit := do
  let next ← peek?
  modify fun r => { r with buffer := r.buffer ++ next.toList }
  pass

/-- The move that an action asks for, with the answer to it. -/
def ofAction : Reader.Action → Move Reader.Reply
  | .peek => return .byte (← peek?)
  | .pass => do
    pass
    return .done
  | .collect => do
    collect
    return .done
  | .passIf b => return .passed (← passIf b)

end Move

/-- What the consumer is told of a move. -/
def reply : Except EndOfInput Reader.Reply → Reader.Reply
  | .ok answer => answer
  | .error e => .refused e

/-- Carries out one action.  If it is refused, the reader goes on from where it is left. -/
def perform (r : Counted) (a : Reader.Action) : Reader.Reply × Counted :=
  let moved := (Move.ofAction a).on r
  (reply moved.1, moved.2)

/-- Carries out actions in order; each answer comes with the reader after it. -/
def run (r : Counted) : List Reader.Action → List (Reader.Reply × Counted)
  | [] => []
  | a :: more =>
    let step := r.perform a
    step :: step.2.run more

end Counted

/-- The same reader, with the counters that belong to its place in the input. -/
def Reader.counted (input : Bytes) (r : Reader) : Counted :=
  ⟨input, r.offset, r.cursor.position, r.buffer⟩

namespace Counted

/-! ## Moves -/

namespace Move

section
variable {α β : Type} {move : Move α} {more : α → Move β} {r left : Counted}

/-- A move that is not refused goes on. -/
theorem on_bind_of_ok {a : α} (h : move.on r = (.ok a, left)) :
    (move >>= more).on r = (more a).on left := by
  unfold on at h ⊢
  rw [ExceptT.run_bind, StateT.run_bind, h]
  rfl

/-- A move that is refused does not. -/
theorem on_bind_of_error {e : EndOfInput} (h : move.on r = (.error e, left)) :
    (move >>= more).on r = (.error e, left) := by
  unfold on at h ⊢
  rw [ExceptT.run_bind, StateT.run_bind, h]
  rfl

end

section
variable {r : Counted} {b : UInt8}

theorem pass_on_of_some (h : r.input[r.offset]? = some b) :
    pass.on r = (.ok (), { r with offset := r.offset + 1, position := r.position + 1 }) := by
  obtain ⟨hlt, -⟩ := List.getElem?_eq_some_iff.1 h
  show on (if r.input.length ≤ r.offset then throw ⟨r.position⟩ else countOn) r = _
  rw [if_neg (Nat.not_le_of_lt hlt)]
  rfl

theorem pass_on_of_none (h : r.input[r.offset]? = none) :
    pass.on r = (.error ⟨r.position⟩, r) := by
  show on (if r.input.length ≤ r.offset then throw ⟨r.position⟩ else countOn) r = _
  rw [if_pos (List.getElem?_eq_none_iff.1 h)]
  rfl

theorem collect_on_of_some (h : r.input[r.offset]? = some b) :
    collect.on r = (.ok (),
      { r with offset := r.offset + 1, position := r.position + 1,
               buffer := r.buffer ++ [b] }) := by
  show pass.on { r with buffer := r.buffer ++ r.input[r.offset]?.toList } = _
  rw [h]
  exact pass_on_of_some h

/-- Where there is no byte to pass, there was none to put into the buffer. -/
theorem collect_on_of_none (h : r.input[r.offset]? = none) :
    collect.on r = (.error ⟨r.position⟩, r) := by
  show pass.on { r with buffer := r.buffer ++ r.input[r.offset]?.toList } = _
  rw [h, Option.toList_none, List.append_nil]
  exact pass_on_of_none h

theorem passIf_on_of_eq (h : r.input[r.offset]? = some b) :
    (passIf b).on r =
      (.ok true, { r with offset := r.offset + 1, position := r.position + 1 }) := by
  show on (if r.input[r.offset]? = some b then pass >>= fun _ => pure true else pure false) r = _
  rw [if_pos h, on_bind_of_ok (pass_on_of_some h)]
  rfl

theorem passIf_on_of_ne (h : r.input[r.offset]? ≠ some b) : (passIf b).on r = (.ok false, r) := by
  show on (if r.input[r.offset]? = some b then pass >>= fun _ => pure true else pure false) r = _
  rw [if_neg h]
  rfl

end

end Move

/-! ## Actions -/

/-- A move that is not refused, and the answer that it gives. -/
theorem perform_of_ok {α : Type} {a : Reader.Action} {move : Move α} {answer : α → Reader.Reply}
    {r left : Counted} {x : α} (ha : Move.ofAction a = move >>= fun y => pure (answer y))
    (h : move.on r = (.ok x, left)) : r.perform a = (answer x, left) := by
  unfold perform
  rw [ha, Move.on_bind_of_ok h]
  rfl

theorem perform_of_error {α : Type} {a : Reader.Action} {move : Move α}
    {answer : α → Reader.Reply} {r left : Counted} {e : EndOfInput}
    (ha : Move.ofAction a = move >>= fun y => pure (answer y))
    (h : move.on r = (.error e, left)) : r.perform a = (.refused e, left) := by
  unfold perform
  rw [ha, Move.on_bind_of_error h]
  rfl

section
variable {input : Bytes} {r : Reader}

/-- Both counters are moved, or none. -/
theorem counted_onward {b : UInt8} (h : r.StandsIn input) (hb : input[r.offset]? = some b)
    (buffer : Bytes) :
    Reader.counted input { r.onward with buffer } =
      ⟨input, r.offset + 1, r.cursor.position + 1, buffer⟩ := by
  obtain ⟨⟨-, hposition, -⟩, hoffset⟩ := h.onward hb
  have hcounted : Reader.counted input { r.onward with buffer } =
      ⟨input, r.onward.offset, r.onward.cursor.position, buffer⟩ := rfl
  rw [hcounted, hposition, hoffset, h.position]

/-- **One action**: what a reader in an input answers and leaves, the one with counters does
    too. -/
theorem perform_eq {a : Reader.Action} {reply : Reader.Reply} {left : Reader}
    (h : r.StandsIn input) (hanswers : Reader.Answers input r a reply left) :
    (r.counted input).perform a = (reply, left.counted input) := by
  cases hanswers with
  | told => rfl
  | passed hb =>
    rw [perform_of_ok (a := .pass) rfl (Move.pass_on_of_some hb)]
    exact congrArg _ (counted_onward h hb r.buffer).symm
  | @collected b hb =>
    rw [perform_of_ok (a := .collect) rfl (Move.collect_on_of_some hb)]
    exact congrArg _ (counted_onward h hb (r.buffer ++ [b])).symm
  | refused ha hend =>
    have hnone : input[r.offset]? = none := List.getElem?_eq_none_iff.2 (Nat.le_of_eq hend.symm)
    rcases ha with rfl | rfl
    · exact perform_of_error (a := .pass) rfl (Move.pass_on_of_none hnone)
    · exact perform_of_error (a := .collect) rfl (Move.collect_on_of_none hnone)
  | @found b hb =>
    rw [perform_of_ok (a := .passIf b) rfl (Move.passIf_on_of_eq hb)]
    exact congrArg _ (counted_onward h hb r.buffer).symm
  | @missed b hb => exact perform_of_ok (a := .passIf b) rfl (Move.passIf_on_of_ne hb)

end

/-- **In step**: whatever is asked, in whatever order, a reader with counters gives the answers
    of the one without them, and its counters are those of its place. -/
theorem run_eq {input : Bytes} {r : Reader} (h : r.StandsIn input)
    (actions : List Reader.Action) :
    (r.counted input).run actions =
      (r.run actions).map fun step => (step.1, step.2.counted input) := by
  induction actions generalizing r with
  | nil => rfl
  | cons a more ih =>
    have hanswers := Reader.answers_perform h a
    rw [run, perform_eq h hanswers, ih (hanswers.standsIn h)]
    rfl

end Counted

end SqlTokens
