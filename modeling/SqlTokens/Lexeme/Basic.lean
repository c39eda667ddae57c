import SqlTokens.Token

/-! # Lexemes

    A lexeme is what a rule of the lexer finds at the head of the input: the
    kind of the token, the bytes that it is written with, and the text that it
    carries.  It knows neither where in the statement it stands nor which number
    its placeholder has; `Scanner` adds both. -/

namespace SqlTokens

/-- The text that a lexeme carries. -/
inductive Content where
  /-- No text: an operator. -/
  | absent
  /-- These bytes. -/
  | text (bytes : Bytes)
  /-- The name that is made for a `?`, which depends on how many came before. -/
  | ordinal
  deriving DecidableEq

/-- A token as it is found at the head of the input. -/
structure Lexeme where
  kind : TokenKind
  /-- The bytes that it is written with. -/
  source : Bytes
  content : Content
  deriving DecidableEq

namespace Lexeme

/-- A lexeme that carries its own source. -/
def verbatim (kind : TokenKind) (source : Bytes) : Lexeme :=
  ⟨kind, source, .text source⟩

/-- An operator, written as `source`. -/
def sign (op : Operator) (source : Bytes) : Lexeme :=
  ⟨.operator op, source, .absent⟩

end Lexeme

end SqlTokens
