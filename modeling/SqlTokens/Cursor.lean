import SqlTokens.Byte

/-! # Cursors

    A cursor is a place in an input: what is still to be read, and the position
    of its first byte, counted from one.  It only moves forward, a byte at a
    time; to move beyond the end of the input is refused, and nothing changes.

    A `Reader` is a cursor with a buffer that collects bytes as they are
    passed. -/

namespace SqlTokens

/-- A place in an input. -/
structure Cursor where
  /-- What is still to be read. -/
  rest : Bytes
  /-- The position of the byte that is read next. -/
  position : Nat
  deriving DecidableEq

/-- The refusal to move beyond the end of the input, which is at `position`. -/
structure EndOfInput where
  position : Nat
  deriving DecidableEq

/-- The text of the refusal. -/
def EndOfInput.message (e : EndOfInput) : String :=
  "unexpected end of input at position " ++ toString e.position

namespace Cursor

/-- The place before the first byte of an input. -/
def start (input : Bytes) : Cursor :=
  ⟨input, 1⟩

/-- The byte that is read next. -/
def peek? (c : Cursor) : Option UInt8 :=
  c.rest.head?

/-- Whether nothing is left to be read. -/
def atEnd (c : Cursor) : Bool :=
  c.rest.isEmpty

/-- Passes one byte. -/
def advance (c : Cursor) : Except EndOfInput Cursor :=
  match c.rest with
  | [] => .error ⟨c.position⟩
  | _ :: rest => .ok ⟨rest, c.position + 1⟩

/-- Passes `n` bytes, or as many as there are. -/
def skip : Nat → Cursor → Cursor
  | 0, c => c
  | n + 1, c =>
    match c.advance with
    | .error _ => c
    | .ok next => skip n next

/-- Passes the bytes of a class. -/
def skipWhile (p : UInt8 → Bool) (c : Cursor) : Cursor :=
  c.skip (c.rest.takeWhile p).length

/-! ## What is left after a move -/

@[simp] theorem rest_skip (n : Nat) (c : Cursor) : (c.skip n).rest = c.rest.drop n := by
  induction n generalizing c with
  | zero => rfl
  | succ n ih =>
    obtain ⟨rest, position⟩ := c
    cases rest with
    | nil => rfl
    | cons b rest => exact ih ⟨rest, position + 1⟩

theorem position_skip {n : Nat} {c : Cursor} (h : n ≤ c.rest.length) :
    (c.skip n).position = c.position + n := by
  induction n generalizing c with
  | zero => rfl
  | succ n ih =>
    obtain ⟨rest, position⟩ := c
    cases rest with
    | nil => exact absurd h (by simp)
    | cons b rest =>
      refine (ih (c := ⟨rest, position + 1⟩) (by simpa using h)).trans ?_
      exact Nat.add_right_comm position 1 n

@[simp] theorem rest_skipWhile (p : UInt8 → Bool) (c : Cursor) :
    (c.skipWhile p).rest = c.rest.dropWhile p := by
  have h : c.rest.takeWhile p ++ c.rest.dropWhile p = c.rest := List.takeWhile_append_dropWhile
  have hd := List.prefix_iff_eq_append.1 (List.takeWhile_prefix (l := c.rest) p)
  rw [skipWhile, rest_skip]
  exact List.append_cancel_left (hd.trans h.symm)

end Cursor

/-! ## Readers -/

/-- A cursor with the bytes that were collected on the way. -/
structure Reader where
  cursor : Cursor
  buffer : Bytes
  deriving DecidableEq

namespace Reader

/-- A reader before the first byte of an input, with nothing collected. -/
def start (input : Bytes) : Reader :=
  ⟨.start input, []⟩

/-- What can be asked of a reader. -/
inductive Action where
  /-- Which byte is next? -/
  | peek
  /-- Pass a byte. -/
  | pass
  /-- Pass a byte and collect it. -/
  | collect
  /-- Pass the next byte if it is this one. -/
  | passIf (b : UInt8)
  deriving DecidableEq

/-- What a reader answers. -/
inductive Reply where
  | byte (b : Option UInt8)
  | done
  | refused (e : EndOfInput)
  | passed (yes : Bool)
  deriving DecidableEq

/-- Carries out one action.  A refused one leaves the reader as it was. -/
def perform (r : Reader) : Action → Reply × Reader
  | .peek => (.byte r.cursor.peek?, r)
  | .pass =>
    match r.cursor.advance with
    | .error e => (.refused e, r)
    | .ok next => (.done, { r with cursor := next })
  | .collect =>
    match r.cursor.advance with
    | .error e => (.refused e, r)
    | .ok next => (.done, ⟨next, r.buffer ++ r.cursor.peek?.toList⟩)
  | .passIf b =>
    if r.cursor.peek? = some b then
      (.passed true, { r with cursor := r.cursor.skip 1 })
    else (.passed false, r)

/-- Carries out actions in order; each answer comes with the reader after it. -/
def run (r : Reader) : List Action → List (Reply × Reader)
  | [] => []
  | a :: more =>
    let step := r.perform a
    step :: run step.2 more

end Reader

end SqlTokens
