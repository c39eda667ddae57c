import SqlTokens.Lexeme.Basic
import SqlTokens.Literal.Escape

/-! # Quoted literals

    Between two delimiters stands a row of items: the delimiter written twice,
    an escape, or any other byte by itself.  Each item denotes one byte.  The
    literal ends at the first delimiter that is not doubled; if the input ends
    before that, the whole of it is malformed, and what it denotes so far is
    kept for the message. -/

namespace SqlTokens

namespace Quoted

/-- A part of a quoted literal that denotes one byte. -/
inductive Item where
  /-- A byte that stands for itself. -/
  | plain (b : UInt8)
  /-- The delimiter, written twice. -/
  | doubled
  /-- A backslash and its code. -/
  | escaped (code : UInt8)
  deriving DecidableEq

/-- How an item is written between delimiters `d`. -/
def Item.source (d : UInt8) : Item → Bytes
  | .plain b => [b]
  | .doubled => [d, d]
  | .escaped code => [Byte.backslash, code]

/-- The byte that an item denotes between delimiters `d`. -/
def Item.meaning (d : UInt8) : Item → UInt8
  | .plain b => b
  | .doubled => d
  | .escaped code => Escape.decode code

/-- How the row of items ends. -/
inductive Ending where
  /-- With the closing delimiter. -/
  | closed
  /-- With the input. -/
  | unclosed
  /-- With a backslash that is the last byte of the input. -/
  | brokenEscape
  deriving DecidableEq

/-- The bytes of an ending. -/
def Ending.source (d : UInt8) : Ending → Bytes
  | .closed => [d]
  | .unclosed => []
  | .brokenEscape => [Byte.backslash]

/-- A quoted literal after its opening delimiter. -/
structure Body where
  items : List Item
  ending : Ending
  deriving DecidableEq

/-- The bytes of a body. -/
def Body.source (d : UInt8) (body : Body) : Bytes :=
  body.items.flatMap (Item.source d) ++ body.ending.source d

/-- The bytes that a body denotes. -/
def Body.value (d : UInt8) (body : Body) : Bytes :=
  body.items.map (Item.meaning d)

/-- The body at the head of the input, whose items come after those of `read`,
    which are in reverse. -/
def bodyOnto (d : UInt8) (read : List Item) : Bytes → Body
  | [] => ⟨read.reverse, .unclosed⟩
  | [b] =>
    if b == d then ⟨read.reverse, .closed⟩
    else if b == Byte.backslash then ⟨read.reverse, .brokenEscape⟩
    else ⟨(.plain b :: read).reverse, .unclosed⟩
  | b :: c :: rest =>
    if b == d then
      if c == d then bodyOnto d (.doubled :: read) rest
      else ⟨read.reverse, .closed⟩
    else if b == Byte.backslash then bodyOnto d (.escaped c :: read) rest
    else bodyOnto d (.plain b :: read) (c :: rest)

/-- The body between delimiters `d` at the head of the input. -/
def body (d : UInt8) (s : Bytes) : Body :=
  bodyOnto d [] s

end Quoted

/-- The literal that delimiter `d` opens, with the rest of the input after it. -/
def Lexeme.quoted (kind : TokenKind) (d : UInt8) (s : Bytes) : Lexeme :=
  let body := Quoted.body d s
  let kind := if body.ending = .closed then kind else .malformed
  ⟨kind, d :: body.source d, .text (body.value d)⟩

end SqlTokens
