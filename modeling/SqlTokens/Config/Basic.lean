import SqlTokens.Error
import SqlTokens.Text.Blank

/-! # Configuration

    Two settings: whether comments are shown, and how much is logged.  The level
    may be any text until it is checked; then it must be one of five, whatever
    the case of its letters. -/

namespace SqlTokens

/-- The settings of the program. -/
structure Config where
  /-- Whether comments are handed to the consumer. -/
  allowComments : Bool
  /-- The level of the log. -/
  level : String
  deriving DecidableEq

namespace Config

/-- Comments are hidden and the level is `info` unless something else is said. -/
def standard : Config :=
  ⟨false, "info"⟩

/-- The levels of the log, from the most urgent on. -/
def levels : List String :=
  ["error", "warn", "info", "debug", "trace"]

/-- A level, whatever the case of its letters. -/
def isLevel (s : String) : Bool :=
  levels.contains (String.ofList (Text.toLower s.toList))

/-- Refuses a level that is none. -/
def validate (c : Config) : Except Error Unit :=
  if isLevel c.level then .ok () else .error (.configuration (.unknownLevel c.level))

end Config

end SqlTokens
