import SqlTokens.CommandLine.Invocation

/-! # Arguments

    The command line is options of the program, the name of a command, and the
    options and operands of the command.

    * **Options** start with two dashes and a name, or with one dash and letters.
      A value is the next argument, or follows an equals sign, or follows the
      letter at once.
    * **Operands** are all other arguments, a single dash among them, and all
      arguments after `--`.
    * **Settling**: an option whose value is the next argument is checked only when
      the next option or operand comes, or at the end; an option of the program
      that still waits then is checked after the whole command.  This decides which
      of several errors is reported. -/

namespace SqlTokens

/-! ## Options -/

/-- An option. -/
inductive Opt where
  | config | logLevel | file | allowComments | json | help | version
  deriving DecidableEq

namespace Opt

/-- The name of an option after two dashes. -/
def long : Opt → String
  | .config => "config"
  | .logLevel => "log-level"
  | .file => "file"
  | .allowComments => "allow-comments"
  | .json => "json"
  | .help => "help"
  | .version => "version"

/-- The letter of an option after one dash. -/
def short? : Opt → Option Char
  | .config => some 'c'
  | .file => some 'f'
  | .help => some 'h'
  | .version => some 'V'
  | _ => none

/-- Options that have a value. -/
def takesValue : Opt → Bool
  | .config | .logLevel | .file => true
  | _ => false

/-- Options whose value is a path, which is never empty. -/
def isPath : Opt → Bool
  | .config | .file => true
  | _ => false

end Opt

/-- Where options and operands stand: before the command, or after it. -/
inductive Scope where
  | program | tokenize | placeholders | keywords
  deriving DecidableEq

namespace Scope

/-- The options that may stand there. -/
def options : Scope → List Opt
  | .program => [.config, .logLevel, .help, .version]
  | .tokenize => [.file, .allowComments, .json, .help]
  | .placeholders => [.help]
  | .keywords => [.help]

/-- How many operands may stand there. -/
def operandLimit : Scope → Nat
  | .tokenize => 1
  | .placeholders => 1
  | _ => 0

/-- The scope of each command under its name. -/
def commands : List (String × Scope) :=
  [("tokenize", .tokenize), ("placeholders", .placeholders), ("keywords", .keywords)]

/-- The command that asks for help on another. -/
def helpName : String := "help"

/-- The name of a command. -/
def isCommandName (arg : String) : Bool :=
  arg == helpName || (commands.lookup arg).isSome

end Scope

/-! ## Single arguments -/

/-- The form of an argument. -/
inductive Shape where
  /-- The separator `--`, after which operands follow. -/
  | separator
  /-- An option by its name, `--name` or `--name=value`. -/
  | long (name : String) (value : Option String)
  /-- Options by their letters, after one dash. -/
  | short (letters : List Char)
  /-- Anything else. -/
  | plain
  deriving DecidableEq

/-- The form of an argument. -/
def Shape.of (arg : String) : Shape :=
  match arg.toList with
  | ['-', '-'] => .separator
  | '-' :: '-' :: text =>
    let name := text.takeWhile (· != '=')
    let value := match text.drop name.length with
      | [] => none
      | _ :: value => some (String.ofList value)
    .long (String.ofList name) value
  | '-' :: c :: letters => .short (c :: letters)
  | _ => .plain

/-! ## Arguments of a scope -/

/-- What was read of the arguments of a scope. -/
structure Given where
  /-- The options that were checked, with their values. -/
  settled : List (Opt × Option String)
  /-- An option that is yet to be checked, with its value if it has come. -/
  pending : Option (Opt × Option String)
  operands : List String
  /-- Whether all that follows is operands. -/
  isLiteral : Bool
  deriving DecidableEq

namespace Given

def empty : Given :=
  ⟨[], none, [], false⟩

/-- Whether the next argument may be the value of an option. -/
def awaitsValue (g : Given) : Bool :=
  g.pending.any fun entry => entry.2.isNone

/-- The value of an option. -/
def value? (g : Given) (o : Opt) : Option String :=
  (g.settled.lookup o).join

def has (g : Given) (o : Opt) : Bool :=
  (g.settled.lookup o).isSome

/-- Checks an option and takes it over. -/
def settle (g : Given) (o : Opt) (value : Option String) : Except UsageError Given :=
  if o.takesValue && value.isNone then .error .invalidValue
  else if g.has o then .error .argumentConflict
  else if o.isPath && value == some "" then .error .invalidValue
  else if o = .help then .error .help
  else if o = .version then .error .version
  else .ok { g with settled := g.settled ++ [(o, value)] }

/-- Checks the option that is pending. -/
def settlePending (g : Given) : Except UsageError Given :=
  match g.pending with
  | none => .ok g
  | some (o, value) => { g with pending := none }.settle o value

/-- An option that is complete as it stands. -/
def addOption (g : Given) (o : Opt) (value : Option String) : Except UsageError Given := do
  (← g.settlePending).settle o value

/-- An option whose value is to come. -/
def addPending (g : Given) (o : Opt) : Except UsageError Given := do
  return { ← g.settlePending with pending := some (o, none) }

/-- An option after two dashes. -/
def addLong (scope : Scope) (g : Given) (name : String) (value : Option String) :
    Except UsageError Given :=
  match scope.options.find? fun o => o.long == name with
  | none => .error .unknownArgument
  | some o =>
    match o.takesValue, value with
    | true, none => g.addPending o
    | true, some _ => g.addOption o value
    | false, none => g.addOption o none
    | false, some _ => .error .surplusValue

/-- Options after one dash; the first that has a value takes all the rest. -/
def addShort (scope : Scope) (g : Given) : List Char → Except UsageError Given
  | [] => .ok g
  | c :: letters =>
    match scope.options.find? fun o => o.short? == some c with
    | none => .error .unknownArgument
    | some o =>
      if o.takesValue then
        match letters with
        | [] => g.addPending o
        | '=' :: value => g.addOption o (some (String.ofList value))
        | value => g.addOption o (some (String.ofList value))
      else do
        addShort scope (← g.addOption o none) letters

/-- What is said of an operand for which there is no place. -/
def surplusOperand (scope : Scope) (g : Given) (arg : String) : UsageError :=
  if scope = .program && !(g.isLiteral && Scope.isCommandName arg) then .invalidSubcommand
  else .unknownArgument

/-- An operand. -/
def addOperand (scope : Scope) (g : Given) (arg : String) : Except UsageError Given := do
  if g.operands.length < scope.operandLimit then
    let g ← g.settlePending
    return { g with operands := g.operands ++ [arg] }
  else .error (g.surplusOperand scope arg)

/-- An argument that is not the name of a command. -/
def add (scope : Scope) (g : Given) (arg : String) : Except UsageError Given :=
  if g.isLiteral then g.addOperand scope arg
  else match Shape.of arg with
    | .separator => .ok { g with isLiteral := true }
    | .long name value => g.addLong scope name value
    | .short letters => g.addShort scope letters
    | .plain =>
      match g.pending with
      | some (o, none) => .ok { g with pending := some (o, some arg) }
      | _ => g.addOperand scope arg

/-- The arguments of a command. -/
def read (scope : Scope) (g : Given) : List String → Except UsageError Given
  | [] => .ok g
  | arg :: more => do read scope (← g.add scope arg) more

end Given

/-! ## Commands -/

/-- What is said of a question for help, given the arguments after it. -/
def helpAnswer : List String → UsageError
  | [] => .help
  | [arg] => if Scope.isCommandName arg then .help else .invalidSubcommand
  | _ => .invalidSubcommand

/-- The command that its arguments ask for, once all are checked. -/
def commandOf (scope : Scope) (g : Given) : Except UsageError Command :=
  match scope with
  | .tokenize =>
    let file := g.value? .file
    let sql := g.operands.head?
    if file.isSome && sql.isSome then .error .argumentConflict
    else .ok (.tokenize sql file (g.has .allowComments) (g.has .json))
  | .placeholders =>
    match g.operands.head? with
    | none => .error .missingOperand
    | some sql => .ok (.placeholders sql)
  | .keywords => .ok .keywords
  | .program => .error .missingSubcommand

/-- The command of a scope, with these arguments. -/
def readCommand (scope : Scope) (args : List String) : Except UsageError Command := do
  commandOf scope (← (← Given.empty.read scope args).settlePending)

/-- The invocation that the arguments of the program ask for, after those of `g`. -/
def readProgram (g : Given) : List String → Except UsageError Invocation
  | [] => do
    let g ← g.settlePending
    if g.settled.isEmpty then .error .nothingGiven else .error .missingSubcommand
  | arg :: more => do
    if !g.isLiteral && !g.awaitsValue && Scope.isCommandName arg then
      match Scope.commands.lookup arg with
      | none => .error (helpAnswer more)
      | some scope =>
        let command ← readCommand scope more
        let g ← g.settlePending
        return ⟨g.value? .config, g.value? .logLevel, command⟩
    else readProgram (← g.add .program arg) more

/-- The invocation that a command line asks for. -/
def Invocation.ofArguments (args : List String) : Except UsageError Invocation :=
  readProgram .empty args

end SqlTokens
