import SqlTokens.Error
import SqlTokens.Lexer.Basic
import SqlTokens.Log

/-! # The tokens of a whole statement

    A statement with a malformed token is refused as a whole, with a message that
    says where the lexer stopped and near what.  A statement without one gives
    its tokens, and the names of its placeholders. -/

namespace SqlTokens.Lexer

/-! ## Error messages -/

/-- An error message with the place where the lexer stands and, if the last token
    had a text, that text. -/
def diagnosis (lx : Lexer) (message : String) : String :=
  let placed := message ++ " at position " ++ toString lx.position
  match lx.lastText with
  | none => placed
  | some bytes => placed ++ " near " ++ Utf8.toStringLossy bytes

/-- The lexer with the diagnosis as its last one. -/
def report (lx : Lexer) (message : String) : Lexer :=
  { lx with lastDiagnosis := some (lx.diagnosis message) }

/-- The diagnosis where a malformed token was the last. -/
def malformedDiagnosis (lx : Lexer) : String :=
  lx.diagnosis "syntax error"

/-! ## Statements -/

/-- Reads what is left of the statement, to its end or to its first malformed token. -/
def readStatement (lx : Lexer) : Course :=
  lx.course .shown Token.isMalformed

namespace Course

/-- The error that a reading ends with. -/
def error? (c : Course) : Option Error :=
  if c.last.1.isMalformed then some (.sqlParsing c.last.2.malformedDiagnosis) else none

/-- The tokens of a reading, the end of the input among them, or its error. -/
def result (c : Course) : Except Error (List Token) :=
  match c.error? with
  | some e => .error e
  | none => .ok c.tokens

/-- The lexer after a reading, which has reported the error. -/
def lexer (c : Course) : Lexer :=
  if c.last.1.isMalformed then
    { c.last.2 with lastDiagnosis := some c.last.2.malformedDiagnosis }
  else c.last.2

/-- The log of a reading. -/
def log (c : Course) : List LogRecord :=
  c.tokens.map .token ++
    if c.last.1.isMalformed then [.diagnosis c.last.2.malformedDiagnosis] else []

end Course

/-- The tokens of what is left of the statement, the end of the input among them. -/
def tokenize (lx : Lexer) : Except Error (List Token) :=
  lx.readStatement.result

/-! ## Placeholders of a statement -/

/-- The names of all placeholders of a statement, in the order of the text. -/
def placeholderNames (sql : String) : Except Error (List String) := do
  let tokens ← (start (Utf8.ofString sql)).tokenize
  return (tokens.filter fun t => t.kind == .placeholder).map Token.text

/-- The names that are made for the placeholders without one, in order. -/
def ordinalNames (sql : String) : Except Error (List String) := do
  let course := (start (Utf8.ofString sql)).readStatement
  let _ ← course.result
  return (List.range course.lexer.ordinals).map fun i => ":v" ++ toString (i + 1)

end SqlTokens.Lexer
