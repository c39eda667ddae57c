import SqlTokens.Config.Environment
import SqlTokens.Config.File

/-! # A history of settings

    Settings change by commands: from the environment, from a file, by hand.  A
    command that fails changes nothing.  Settings can also be saved, and read back
    from where they were saved last. -/

namespace SqlTokens.Config

/-- The settings in force, and what the commands on them can see. -/
structure Context where
  config : Config
  environment : Environment
  /-- The file that was written last. -/
  saved : Option Bytes

/-- Standard settings, no variable set, nothing saved. -/
def Context.start : Context :=
  ⟨standard, .empty, none⟩

/-- What may be done with the settings. -/
inductive Command where
  /-- Set the variables of the environment. -/
  | setEnvironment (env : Environment)
  /-- Override the settings by the environment. -/
  | applyEnvironment
  /-- Replace the settings by those of the environment alone. -/
  | takeEnvironment
  /-- Replace the settings by those of a file with this content, if it exists. -/
  | load (content : Option Bytes)
  /-- Write the settings to a file, in a place that exists or in one that does not. -/
  | save (placeExists : Bool)
  /-- Replace the settings by those that were saved last. -/
  | reload
  /-- Set both settings by hand. -/
  | set (config : Config)
  /-- Check the level. -/
  | validate
  /-- Are the settings the standard ones? -/
  | isStandard

/-- What a command answers. -/
inductive Reply where
  | done
  | failed (e : Error)
  | text (s : String)
  | truth (b : Bool)

/-- Puts the result of a command in force, if it has one. -/
def Context.replace (x : Context) (reply : Config → Reply) : Except Error Config → Reply × Context
  | .error e => (.failed e, x)
  | .ok config => (reply config, { x with config })

/-- Carries out one command. -/
def Context.perform (x : Context) : Command → Reply × Context
  | .setEnvironment environment => (.done, { x with environment })
  | .applyEnvironment => x.replace (fun _ => .done) (x.config.applyEnvironment x.environment)
  | .takeEnvironment => x.replace (fun _ => .done) (ofEnvironment x.environment)
  | .load content => x.replace (fun _ => .done) (ofFile content)
  | .save true =>
    let text := x.config.toText
    (.text text, { x with saved := some (Utf8.ofString text) })
  | .save false => (.failed (.io .notFound), x)
  | .reload => x.replace (fun config => .truth (config == x.config)) (ofFile x.saved)
  | .set config => (.done, { x with config })
  | .validate =>
    match x.config.validate with
    | .error e => (.failed e, x)
    | .ok _ => (.done, x)
  | .isStandard => (.truth (x.config == standard), x)

/-- Carries out commands in order; each answer comes with the context after it. -/
def Context.run (x : Context) : List Command → List (Reply × Context)
  | [] => []
  | command :: more =>
    let step := x.perform command
    step :: step.2.run more

end SqlTokens.Config
