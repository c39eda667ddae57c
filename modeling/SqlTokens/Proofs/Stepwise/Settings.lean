import SqlTokens.Config.Session

/-! # Settings, edited in place

    The settings in force can also be overridden where they stand: first the one, then the
    other.  An edit that fails on its way does not take back what it has changed.

    Nothing has to be taken back: the only part that can fail comes first, and it fails
    before it changes anything (`Config.Edit.applyEnvironment_on`).  So commands that are
    carried out in place have the effects that are said of them, all or nothing
    (`Config.Context.runInPlace_eq`). -/

namespace SqlTokens.Config

/-- An edit of settings in place: it may fail, and what it has changed until then stays. -/
abbrev Edit (α : Type) : Type := ExceptT Error (StateM Config) α

namespace Edit

/-- The result of an edit, and the settings that it leaves. -/
def on {α : Type} (edit : Edit α) (c : Config) : Except Error α × Config :=
  StateT.run (ExceptT.run edit) c

/-- Overrides the setting for comments. -/
def overrideComments (env : Environment) : Edit Unit :=
  match env.allowCommentsText? with
  | none => return
  | some text =>
    match switch? text with
    | none => throw (.configuration (.unknownSwitch Environment.allowCommentsName text))
    | some isOn => modify fun c => { c with allowComments := isOn }

/-- Overrides the level. -/
def overrideLevel (env : Environment) : Edit Unit :=
  match env.levelText? with
  | none => return
  | some text => modify fun c => { c with level := text }

/-- Overrides both settings. -/
def applyEnvironment (env : Environment) : Edit Unit := do
  overrideComments env
  overrideLevel env

/-- **In place**: overriding the settings one after the other overrides both, or fails and
    leaves both. -/
theorem applyEnvironment_on (env : Environment) (c : Config) :
    (applyEnvironment env).on c =
      ((c.applyEnvironment env).map fun _ => (), (c.applyEnvironment env).toOption.getD c) := by
  unfold applyEnvironment overrideComments overrideLevel Config.applyEnvironment
  cases env.allowCommentsText? with
  | none =>
    cases env.levelText? with
    | none => rfl
    | some level => rfl
  | some text =>
    dsimp only
    cases switch? text with
    | none => rfl
    | some isOn =>
      cases env.levelText? with
      | none => rfl
      | some level => rfl

/-- What the consumer is told of an edit. -/
def reply : Except Error Unit → Reply
  | .ok _ => .done
  | .error e => .failed e

end Edit

namespace Context

/-- Carries out one command, with the settings edited in place: those in force if they are
    overridden, and new ones if they are replaced. -/
def performInPlace (x : Context) : Command → Reply × Context
  | .applyEnvironment =>
    let edited := (Edit.applyEnvironment x.environment).on x.config
    (Edit.reply edited.1, { x with config := edited.2 })
  | .takeEnvironment =>
    let edited := (Edit.applyEnvironment x.environment).on standard
    x.replace (fun _ => .done) (edited.1.map fun _ => edited.2)
  | command => x.perform command

/-- Carries out commands in order, with the settings edited in place. -/
def runInPlace (x : Context) : List Command → List (Reply × Context)
  | [] => []
  | command :: more =>
    let step := x.performInPlace command
    step :: step.2.runInPlace more

theorem performInPlace_applyEnvironment (x : Context) :
    x.performInPlace .applyEnvironment = x.perform .applyEnvironment := by
  show (Edit.reply ((Edit.applyEnvironment x.environment).on x.config).1,
      { x with config := ((Edit.applyEnvironment x.environment).on x.config).2 }) =
    x.replace (fun _ => .done) (x.config.applyEnvironment x.environment)
  rw [Edit.applyEnvironment_on]
  cases x.config.applyEnvironment x.environment with
  | error e => rfl
  | ok config => rfl

theorem performInPlace_takeEnvironment (x : Context) :
    x.performInPlace .takeEnvironment = x.perform .takeEnvironment := by
  show x.replace (fun _ => .done) (((Edit.applyEnvironment x.environment).on standard).1.map
      fun _ => ((Edit.applyEnvironment x.environment).on standard).2) =
    x.replace (fun _ => .done) (standard.applyEnvironment x.environment)
  rw [Edit.applyEnvironment_on]
  cases standard.applyEnvironment x.environment with
  | error e => rfl
  | ok config => rfl

theorem performInPlace_eq (x : Context) (command : Command) :
    x.performInPlace command = x.perform command := by
  cases command with
  | applyEnvironment => exact x.performInPlace_applyEnvironment
  | takeEnvironment => exact x.performInPlace_takeEnvironment
  | setEnvironment env => rfl
  | load content => rfl
  | save placeExists => rfl
  | reload => rfl
  | set config => rfl
  | validate => rfl
  | isStandard => rfl

/-- **All or nothing**: commands in place have the effects that are said of them. -/
theorem runInPlace_eq (x : Context) (commands : List Command) :
    x.runInPlace commands = x.run commands := by
  induction commands generalizing x with
  | nil => rfl
  | cons command more ih => rw [runInPlace, run, performInPlace_eq, ih]

end Context

end SqlTokens.Config
