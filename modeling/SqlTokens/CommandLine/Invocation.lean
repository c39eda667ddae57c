import SqlTokens.Version

/-! # Invocations

    What the program is told to do, once its command line is understood, and why
    a command line may not be. -/

namespace SqlTokens

/-- A command of the program. -/
inductive Command where
  /-- List the tokens of a statement, which is given or is in a file. -/
  | tokenize (sql : Option String) (file : Option String) (allowComments json : Bool)
  /-- List the placeholders of a statement. -/
  | placeholders (sql : String)
  /-- List the reserved words. -/
  | keywords
  deriving DecidableEq

/-- A command with the settings that were given for it. -/
structure Invocation where
  /-- The path of a file with settings. -/
  config : Option String
  /-- The level of the log. -/
  logLevel : Option String
  command : Command
  deriving DecidableEq

/-- Why the program was not told what to do. -/
inductive UsageError where
  /-- There is no such option, or no place for one more operand. -/
  | unknownArgument
  /-- There is no such command. -/
  | invalidSubcommand
  /-- Two arguments exclude each other, or one was given twice. -/
  | argumentConflict
  /-- An option has no value, or one that it cannot have. -/
  | invalidValue
  /-- An operand is missing. -/
  | missingOperand
  /-- There is no command, although there are options. -/
  | missingSubcommand
  /-- There are no arguments at all. -/
  | nothingGiven
  /-- An option that has no value was given one. -/
  | surplusValue
  /-- Help was asked for. -/
  | help
  /-- The version was asked for. -/
  | version
  deriving DecidableEq

/-- The answer to a question about the version. -/
def versionLine : String :=
  programName ++ " " ++ version ++ "\n"

end SqlTokens
