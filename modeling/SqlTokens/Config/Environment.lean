import SqlTokens.Config.Basic
import SqlTokens.Text.Utf8

/-! # Settings from the environment

    Each setting has a variable that overrides it.  A variable whose value is no
    UTF-8 text counts as not set.  Either all settings are taken over or, if the
    switch for comments has no meaning, none. -/

namespace SqlTokens

/-- The two variables, as they are set. -/
structure Environment where
  allowComments : Option Bytes
  level : Option Bytes
  deriving DecidableEq

namespace Environment

/-- No variable is set. -/
def empty : Environment :=
  ⟨none, none⟩

/-- The variable that switches comments on or off. -/
def allowCommentsName : String := "SHARDSQL_ALLOW_COMMENTS"

/-- The variable that names the level of the log. -/
def levelName : String := "SHARDSQL_LOG_LEVEL"

/-- The text of the switch for comments. -/
def allowCommentsText? (env : Environment) : Option String :=
  env.allowComments.bind Utf8.toString?

/-- The text of the level. -/
def levelText? (env : Environment) : Option String :=
  env.level.bind Utf8.toString?

end Environment

/-- The words that switch something on. -/
def onWords : List String := ["1", "true", "yes", "on"]

/-- The words that switch something off. -/
def offWords : List String := ["0", "false", "no", "off"]

/-- The meaning of a switch, whatever blanks are around it and whatever the case of
    its letters. -/
def switch? (s : String) : Option Bool :=
  let word := String.ofList (Text.toLower (Text.trim s.toList))
  if onWords.contains word then some true
  else if offWords.contains word then some false
  else none

namespace Config

/-- The settings with those of the environment in their place. -/
def applyEnvironment (env : Environment) (c : Config) : Except Error Config := do
  let allowComments ← match env.allowCommentsText? with
    | none => pure c.allowComments
    | some text =>
      match switch? text with
      | some isOn => pure isOn
      | none => .error (.configuration (.unknownSwitch Environment.allowCommentsName text))
  return ⟨allowComments, env.levelText?.getD c.level⟩

/-- The settings of the environment, and the standard ones where it has none. -/
def ofEnvironment (env : Environment) : Except Error Config :=
  standard.applyEnvironment env

end Config

end SqlTokens
