import SqlTokens.Cursor
import SqlTokens.Lexeme.Source

/-! # Scanning

    A scanner is a cursor that also counts the placeholders without a name.  It
    turns the lexemes at its cursor into tokens: it passes the blanks, says where
    the token starts, and makes the names `:v1`, `:v2`, … for the `?` in the order
    in which they come.

    * **Progress**: `Scanner.remaining_next_lt` — each token but the end of the
      input takes at least one byte. -/

namespace SqlTokens

/-- The name that is made for the `n`-th placeholder without one. -/
def ordinalName (n : Nat) : Bytes :=
  Utf8.ofString (":v" ++ toString n)

/-- The text of a token whose placeholder, if it is one, has number `n`. -/
def Content.value? (n : Nat) : Content → Option Bytes
  | .absent => none
  | .text bytes => some bytes
  | .ordinal => some (ordinalName n)

/-- How many placeholders without a name there are after this, given how many were
    before. -/
def Content.count (n : Nat) : Content → Nat
  | .ordinal => n + 1
  | _ => n

/-- A cursor that counts the placeholders without a name. -/
structure Scanner where
  cursor : Cursor
  /-- How many `?` were passed as placeholders. -/
  ordinals : Nat
  deriving DecidableEq

namespace Scanner

/-- Before the first byte of an input. -/
def start (input : Bytes) : Scanner :=
  ⟨.start input, 0⟩

def position (s : Scanner) : Nat :=
  s.cursor.position

/-- How many bytes are still to be read. -/
def remaining (s : Scanner) : Nat :=
  s.cursor.rest.length

/-- The next token, comments among them.  At the end of the input it is the end,
    again and again. -/
def next (s : Scanner) : Token × Scanner :=
  let cursor := s.cursor.skipWhile Byte.isBlank
  match cursor.rest with
  | [] => (⟨.endOfInput, none, cursor.position⟩, ⟨cursor, s.ordinals⟩)
  | b :: rest =>
    let lexeme := Lexeme.read b rest
    let ordinals := lexeme.content.count s.ordinals
    (⟨lexeme.kind, lexeme.content.value? ordinals, cursor.position⟩,
      ⟨cursor.skip lexeme.source.length, ordinals⟩)

theorem remaining_next_lt {s : Scanner} (h : s.next.1.kind ≠ .endOfInput) :
    s.next.2.remaining < s.remaining := by
  have hb : (s.cursor.skipWhile Byte.isBlank).rest.length ≤ s.cursor.rest.length := by
    simpa using (List.dropWhile_suffix Byte.isBlank).length_le
  revert h
  unfold next
  dsimp only
  split
  · exact fun h => absurd rfl h
  · next b rest hc =>
    intro _
    have hl := List.length_pos_iff.2 (Lexeme.read_source_ne_nil b rest)
    simp only [remaining, Cursor.rest_skip, hc, List.length_drop, List.length_cons] at hb ⊢
    omega

end Scanner

end SqlTokens
