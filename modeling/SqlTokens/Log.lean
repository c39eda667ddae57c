import SqlTokens.Token

/-! # The log

    What the library reports while it works, each record with its level. -/

namespace SqlTokens

/-- A record of the log. -/
inductive LogRecord where
  /-- The lexer handed out a token. -/
  | token (t : Token)
  /-- The lexer formed an error message. -/
  | diagnosis (message : String)
  /-- A statement is about to be carried out with this many arguments. -/
  | execution (arguments : Nat)
  deriving DecidableEq

namespace LogRecord

/-- Tokens are for tracing, all else is for debugging. -/
def level : LogRecord → String
  | .token _ => "TRACE"
  | .diagnosis _ => "DEBUG"
  | .execution _ => "DEBUG"

def message : LogRecord → String
  | .token t => "token " ++ t.display
  | .diagnosis message => message
  | .execution arguments =>
    "executing statement with " ++ toString arguments ++ " bound arguments"

/-- A record in one line, the level first. -/
def display (r : LogRecord) : String :=
  r.level ++ " " ++ r.message

end LogRecord

end SqlTokens
