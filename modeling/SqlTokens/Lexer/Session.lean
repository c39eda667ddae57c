import SqlTokens.Lexer.Statement

/-! # Sessions

    A session is a row of commands to one lexer, in any order.  Each command has
    a reply, a lexer after it, and the log records that it leaves. -/

namespace SqlTokens.Lexer

/-- What a consumer may ask of a lexer. -/
inductive Command where
  /-- The next token that is shown. -/
  | next
  /-- The next token, whatever it is. -/
  | scan
  /-- The rest of the statement. -/
  | tokenize
  /-- End the statement here. -/
  | truncate
  /-- Show comments from here on, or hide them. -/
  | comments (shown : Bool)
  /-- Form an error message. -/
  | report (message : String)
  deriving DecidableEq

/-- What a lexer replies. -/
inductive Reply where
  | done
  | token (t : Token)
  | statement (result : Except Error (List Token))

/-- The effect of one command. -/
structure Outcome where
  reply : Reply
  lexer : Lexer
  log : List LogRecord

/-- Carries out one command. -/
def perform (lx : Lexer) : Command → Outcome
  | .next =>
    let (token, after) := lx.next
    ⟨.token token, after, [.token token]⟩
  | .scan =>
    let (token, after) := lx.scan
    ⟨.token token, after, []⟩
  | .tokenize =>
    let course := lx.readStatement
    ⟨.statement course.result, course.lexer, course.log⟩
  | .truncate => ⟨.done, lx.truncate, []⟩
  | .comments shown => ⟨.done, lx.showComments shown, []⟩
  | .report message =>
    ⟨.done, lx.report message, [.diagnosis (lx.diagnosis message)]⟩

/-- Carries out commands in order. -/
def session (lx : Lexer) : List Command → List Outcome
  | [] => []
  | command :: more =>
    let outcome := lx.perform command
    outcome :: outcome.lexer.session more

end SqlTokens.Lexer
