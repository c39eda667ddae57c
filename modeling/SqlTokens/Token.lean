import SqlTokens.Keyword
import SqlTokens.Operator

/-! # Tokens

    What the lexer hands out: a kind, the text if there is one, and the place
    where the token starts.  The text is in bytes.  It is decoded: a string
    literal carries what it denotes and not how it was written.

    Every text shown to people is well-formed: where the bytes are not, the
    replacement character stands for them. -/

namespace SqlTokens

/-- The kind of a token. -/
inductive TokenKind where
  /-- A reserved word. -/
  | keyword (word : Keyword)
  /-- A name, bare or between backticks. -/
  | identifier
  /-- A string literal, between single or double quotes. -/
  | string
  /-- A number, as it was written. -/
  | number
  /-- A place for an argument: `:name`, or `?` under a name made for it. -/
  | placeholder
  /-- An operator or a punctuation mark. -/
  | operator (sign : Operator)
  /-- A comment, with its opening. -/
  | comment
  /-- The end of the input. -/
  | endOfInput
  /-- A part of the input that no rule admits. -/
  | malformed
  deriving DecidableEq

/-- How messages and listings show the kind of a token. -/
def TokenKind.display : TokenKind → String
  | .keyword word => word.display
  | .identifier => "IDENTIFIER"
  | .string => "STRING"
  | .number => "NUMBER"
  | .placeholder => "VALUE_ARG"
  | .operator sign => sign.spelling
  | .comment => "COMMENT"
  | .endOfInput => "EOF"
  | .malformed => "LEX_ERROR"

/-- The spelling of a kind that has only one, as operators do. -/
def TokenKind.operatorSpelling? : TokenKind → Option String
  | .operator sign => some sign.spelling
  | _ => none

/-- A token of a statement. -/
structure Token where
  kind : TokenKind
  /-- The decoded text; operators and the end of the input have none. -/
  value : Option Bytes
  /-- Where the token starts, counted in bytes from one. -/
  position : Nat
  deriving DecidableEq

namespace Token

/-- The text of a token in bytes, empty where there is none. -/
def bytes (t : Token) : Bytes :=
  t.value.getD []

/-- The text of a token in characters. -/
def text (t : Token) : String :=
  Utf8.toStringLossy t.bytes

/-- Whether the token is the end of the input. -/
def isEnd (t : Token) : Bool :=
  t.kind == .endOfInput

theorem isEnd_iff {t : Token} : t.isEnd = true ↔ t.kind = .endOfInput :=
  beq_iff_eq

/-- Whether the token is a part of the input that no rule admits. -/
def isMalformed (t : Token) : Bool :=
  t.kind == .malformed

theorem isMalformed_iff {t : Token} : t.isMalformed = true ↔ t.kind = .malformed :=
  beq_iff_eq

/-- A token in one line: its kind, its text in quotes if it has one, its place.
    Nothing between the quotes is escaped. -/
def display (t : Token) : String :=
  let shown := match t.value with
    | some _ => t.kind.display ++ "('" ++ t.text ++ "')"
    | none => t.kind.display
  shown ++ " at " ++ toString t.position

end Token

end SqlTokens
