import SqlTokens.CommandLine.Invocation
import SqlTokens.Config.Environment
import SqlTokens.Config.File
import SqlTokens.Json
import SqlTokens.Lexer.Statement
import SqlTokens.Output

/-! # Carrying out an invocation

    * **Settings** come from a file, then from the environment, then from the
      command line, and are checked at the end.
    * **Tokens** are listed only if the whole statement is sound: in lines with
      tabs between position, kind and text, or as a JSON document.
    * **Placeholders** are listed up to the first malformed token: a `?` under its
      number, a placeholder with a name of its own under a dash. -/

namespace SqlTokens

/-- The settings for an invocation. -/
def Invocation.settings (i : Invocation) (files : Files) (env : Environment) :
    Except Error Config := do
  let config ← match i.config with
    | none => .ok Config.standard
    | some path => Config.ofFile (files path)
  let config ← config.applyEnvironment env
  let config := { config with level := i.logLevel.getD config.level }
  config.validate
  return config

/-! ## Tokens -/

/-- A token on a line: its position, its kind, and its text if it has one. -/
def Token.listing (t : Token) : String :=
  let placed := toString t.position ++ "\t" ++ t.kind.display
  match t.value with
  | none => placed
  | some _ => placed ++ "\t" ++ t.text

/-- A token as a JSON object. -/
def Token.toJson (t : Token) : Json :=
  .object [("kind", .string t.kind.display),
    ("text", t.value.elim .null fun _ => .string t.text),
    ("position", .number t.position)]

/-- The output of a list of tokens: a line for each, or one document and the end of
    its last line. -/
def listTokens (tokens : List Token) (json : Bool) : List Part :=
  if json then [.document (Json.array (tokens.map Token.toJson)).write, .line ""]
  else tokens.map fun t => .line t.listing

/-- Lists the tokens of a statement, without the end of the input. -/
def planTokens (sql : String) (showsComments json : Bool) : Plan :=
  match ((Lexer.start (Utf8.ofString sql)).showComments showsComments).tokenize with
  | .error e => .failed e
  | .ok tokens => .ofParts (listTokens (tokens.filter fun t => !t.isEnd) json)

/-! ## Placeholders -/

/-- The line of a pulled token, if it is a placeholder: `before` is the number of
    placeholders without a name that were passed before it. -/
def placeholderLine? (before : Nat) (pull : Lexer.Pull) : Option String :=
  let (token, after) := pull
  if token.kind != .placeholder then none
  else if before < after.ordinals then some (toString after.ordinals ++ "\t" ++ token.text)
  else some ("-\t" ++ token.text)

/-- Lists the placeholders of what is left of a statement. -/
def Lexer.placeholderPlan (lx : Lexer) : Plan :=
  let course := lx.readStatement
  let counts := lx.ordinals :: course.before.map fun pull => pull.2.ordinals
  let lines := (counts.zipWith placeholderLine? course.before).filterMap id
  ⟨lines.map .line, match course.error? with
    | some e => .error e
    | none => .ok ()⟩

/-- Lists the placeholders of a statement. -/
def planPlaceholders (sql : String) : Plan :=
  (Lexer.start (Utf8.ofString sql)).placeholderPlan

/-! ## Commands -/

/-- The statement of a `tokenize` command: the text that is given or else that of
    the file. -/
def statementText (files : Files) : Option String → Option String → Except Error String
  | some sql, _ => .ok sql
  | none, some path => (readText (files path)).mapError .io
  | none, none => .error (.configuration .noStatement)

/-- What a command writes under some settings. -/
def Command.plan (config : Config) (files : Files) : Command → Plan
  | .tokenize sql file allowComments json =>
    match statementText files sql file with
    | .error e => .failed e
    | .ok sql => planTokens sql (allowComments || config.allowComments) json
  | .placeholders sql => planPlaceholders sql
  | .keywords => .ofParts (Keyword.all.map fun k => .line k.spelling)

/-- Carries out a command: what is written, and the outcome. -/
def Command.execute (command : Command) (config : Config) (files : Files) (sink : Sink) :
    String × Except Error Unit :=
  (command.plan config files).deliver sink

end SqlTokens
