import SqlTokens.Lexeme.Comment
import SqlTokens.Lexeme.Number
import SqlTokens.Lexeme.Quoted
import SqlTokens.Lexeme.Word

/-! # The lexeme at the head of the input

    The first byte decides which rule reads the lexeme.  `Opening.of` sorts the
    256 bytes by rule, and `Lexeme.read` applies the rule: every byte opens a
    lexeme, if only a malformed one of a single byte, so reading never fails and
    always consumes. -/

namespace SqlTokens

/-- What the first byte of a lexeme announces. -/
inductive Opening where
  /-- A word. -/
  | letter
  /-- A number. -/
  | digit
  /-- A named placeholder. -/
  | colon
  /-- An operator that delimits itself. -/
  | single (op : Operator)
  /-- A placeholder without a name. -/
  | question
  /-- A fraction, or a dot. -/
  | dot
  /-- A comment, or a division. -/
  | slash
  /-- A comment, or a minus. -/
  | dash
  /-- A comparison that starts with `<`. -/
  | less
  /-- A comparison that starts with `>`. -/
  | greater
  /-- An inequality; there is no negation. -/
  | bang
  /-- A literal of this kind between two such bytes. -/
  | delimiter (kind : TokenKind)
  /-- A byte that starts nothing. -/
  | stray
  deriving DecidableEq

/-- What byte `b` announces at the head of a lexeme. -/
def Opening.of (b : UInt8) : Opening :=
  if Byte.isLetter b then .letter
  else if Byte.isDigit b then .digit
  else match Operator.ofSelfDelimiting? b with
    | some op => .single op
    | none =>
      match b with
      | Byte.colon => .colon
      | Byte.question => .question
      | Byte.dot => .dot
      | Byte.slash => .slash
      | Byte.dash => .dash
      | Byte.less => .less
      | Byte.greater => .greater
      | Byte.bang => .bang
      | Byte.quote => .delimiter .string
      | Byte.doubleQuote => .delimiter .string
      | Byte.backtick => .delimiter .identifier
      | _ => .stray

namespace Lexeme

/-- A point: with a digit after it, it starts a number. -/
def afterDot (s : Bytes) : Lexeme :=
  if s.head?.any Byte.isDigit then verbatim .number (Number.pointed (Byte.dot :: s))
  else sign .dot [Byte.dot]

/-- A slash: a second one or a star after it starts a comment. -/
def afterSlash : Bytes → Lexeme
  | Byte.slash :: s => lineComment [Byte.slash, Byte.slash] s
  | Byte.star :: s => blockComment s
  | _ => sign .divide [Byte.slash]

/-- A dash: a second one after it starts a comment. -/
def afterDash : Bytes → Lexeme
  | Byte.dash :: s => lineComment [Byte.dash, Byte.dash] s
  | _ => sign .minus [Byte.dash]

/-- A `<`: the longest of `<`, `<>`, `<=` and `<=>`. -/
def afterLess : Bytes → Lexeme
  | Byte.greater :: _ => sign .notEqual [Byte.less, Byte.greater]
  | Byte.equals :: Byte.greater :: _ =>
    sign .nullSafeEqual [Byte.less, Byte.equals, Byte.greater]
  | Byte.equals :: _ => sign .lessEqual [Byte.less, Byte.equals]
  | _ => sign .less [Byte.less]

/-- A `>`: the longer of `>` and `>=`. -/
def afterGreater : Bytes → Lexeme
  | Byte.equals :: _ => sign .greaterEqual [Byte.greater, Byte.equals]
  | _ => sign .greater [Byte.greater]

/-- A `!`: alone it is malformed. -/
def afterBang : Bytes → Lexeme
  | Byte.equals :: _ => sign .notEqual [Byte.bang, Byte.equals]
  | _ => verbatim .malformed [Byte.bang]

/-- The lexeme that starts with byte `b`, which is no blank, with `rest` after it. -/
def read (b : UInt8) (rest : Bytes) : Lexeme :=
  match Opening.of b with
  | .letter => word (b :: rest)
  | .digit => number (b :: rest)
  | .colon => named rest
  | .single op => sign op [b]
  | .question => ⟨.placeholder, [b], .ordinal⟩
  | .dot => afterDot rest
  | .slash => afterSlash rest
  | .dash => afterDash rest
  | .less => afterLess rest
  | .greater => afterGreater rest
  | .bang => afterBang rest
  | .delimiter kind => quoted kind b rest
  | .stray => verbatim .malformed [b]

end Lexeme

end SqlTokens
