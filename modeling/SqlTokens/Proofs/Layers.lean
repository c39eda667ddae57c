import SqlTokens.CommandLine.Execution
import SqlTokens.Proofs.Overrides

/-! # Layers of settings

    The settings for an invocation come in layers: a file or the standard ones, over them the
    environment, and over that the command line.  Each setting is that of the uppermost layer
    that has it.  There are three ways to fail, in this order: the file, the switch for
    comments, and the level that is left in the end (`Invocation.settings_layered`).  So a
    level that is overridden need not be one. -/

namespace SqlTokens

open Utf8 (ofString)

/-- The settings in a file are those that its text holds. -/
theorem Config.ofFile_eq_ok_iff {content : Option Bytes} {c : Config} :
    ofFile content = .ok c ↔ ∃ text, content = some (ofString text) ∧ ofText? text = some c := by
  simp only [← Utf8.readText_eq_ok_iff]
  unfold ofFile
  cases readText content with
  | error fault => simp
  | ok text =>
    cases hread : ofText? text with
    | none => simp [hread]
    | some c' => simp [hread]

namespace Invocation

/-- The lowest layer: the settings of the file, or the standard ones if none is named. -/
def fileSettings (i : Invocation) (files : Files) : Except Error Config :=
  match i.config with
  | none => .ok .standard
  | some path => Config.ofFile (files path)

/-- The level that is left in the end, by the uppermost layer that has one. -/
inductive GivesLevel (i : Invocation) (env : Environment) (below : String) : String → Prop
  /-- The command line names it. -/
  | given {level : String} (hgiven : i.logLevel = some level) : GivesLevel i env below level
  /-- The command line does not, so it is that of the environment or of the file. -/
  | left {level : String} (hnone : i.logLevel = none) (hlevel : env.GivesLevel below level) :
    GivesLevel i env below level

/-- What comes of the layers: one case for each way to fail, in the order in which they are
    met, and one for settings that are sound. -/
inductive Resolves (i : Invocation) (files : Files) (env : Environment) :
    Except Error Config → Prop
  /-- The file is refused, whatever the other layers are. -/
  | file {e : Error} (hfile : i.fileSettings files = .error e) : Resolves i files env (.error e)
  /-- The variable for comments has no meaning, whatever the levels are. -/
  | comments {base : Config} {text : String} (hfile : i.fileSettings files = .ok base)
    (hunclear : env.IsUnclear text) :
    Resolves i files env
      (.error (.configuration (.unknownSwitch "SHARDSQL_ALLOW_COMMENTS" text)))
  /-- The level that is left is none. -/
  | level {base : Config} {shown : Bool} {level : String}
    (hfile : i.fileSettings files = .ok base)
    (hshown : env.GivesComments base.allowComments shown)
    (hlevel : i.GivesLevel env base.level level) (hnames : ¬NamesLevel level) :
    Resolves i files env (.error (.configuration (.unknownLevel level)))
  /-- The level that is left is one, and it is kept as it is written. -/
  | settled {base : Config} {shown : Bool} {level : String}
    (hfile : i.fileSettings files = .ok base)
    (hshown : env.GivesComments base.allowComments shown)
    (hlevel : i.GivesLevel env base.level level) (hnames : NamesLevel level) :
    Resolves i files env (.ok ⟨shown, level⟩)

theorem givesLevel_iff {i : Invocation} {env : Environment} {below level : String} :
    i.GivesLevel env below level ↔ level = i.logLevel.getD (env.levelText?.getD below) := by
  constructor
  · intro h
    cases h with
    | given hgiven => rw [hgiven, Option.getD_some]
    | left hnone hlevel => rw [hnone, Option.getD_none, Environment.givesLevel_iff.1 hlevel]
  · rintro rfl
    cases hgiven : i.logLevel with
    | none => exact .left hgiven (Environment.givesLevel_iff.2 rfl)
    | some level => exact .given hgiven

/-- The layers, one over the other, and the check at the end. -/
theorem settings_eq (i : Invocation) (files : Files) (env : Environment) :
    i.settings files env = (i.fileSettings files >>= fun base =>
      base.applyEnvironment env >>= fun c =>
        Config.validate ⟨c.allowComments, i.logLevel.getD c.level⟩ >>= fun _ =>
          pure ⟨c.allowComments, i.logLevel.getD c.level⟩) := by
  unfold settings fileSettings
  cases i.config with
  | none => rfl
  | some path => rfl

end Invocation

theorem Config.validate_of_namesLevel {c : Config} (h : NamesLevel c.level) :
    c.validate = .ok () :=
  if_pos (namesLevel_iff.1 h)

theorem Config.validate_of_not_namesLevel {c : Config} (h : ¬NamesLevel c.level) :
    c.validate = .error (.configuration (.unknownLevel c.level)) :=
  if_neg (mt namesLevel_iff.2 h)

namespace Invocation

section
variable {i : Invocation} {files : Files} {env : Environment}

/-- What is left of the layers is checked at the end. -/
theorem settings_of_level {base : Config} {shown : Bool} {level : String}
    (hfile : i.fileSettings files = .ok base)
    (hshown : env.GivesComments base.allowComments shown)
    (hlevel : i.GivesLevel env base.level level) :
    i.settings files env =
      (Config.validate ⟨shown, level⟩ >>= fun _ => pure ⟨shown, level⟩) := by
  have happly : base.applyEnvironment env = .ok ⟨shown, env.levelText?.getD base.level⟩ :=
    Config.applyEnvironment_eq_ok_iff.2 ⟨hshown, Environment.givesLevel_iff.2 rfl⟩
  rw [settings_eq, hfile, givesLevel_iff.1 hlevel]
  show (base.applyEnvironment env >>= _) = _
  rw [happly]
  rfl

/-- What is said to come of the layers does come of them. -/
theorem Resolves.settings_eq {result : Except Error Config} (h : i.Resolves files env result) :
    i.settings files env = result := by
  cases h with
  | file hfile =>
    rw [Invocation.settings_eq, hfile]
    rfl
  | @comments base text hfile hunclear =>
    have happly := (Config.applyEnvironment_eq_error_iff (c := base)).2 ⟨text, hunclear, rfl⟩
    rw [Invocation.settings_eq, hfile]
    show (base.applyEnvironment env >>= _) = _
    rw [happly]
    rfl
  | level hfile hshown hlevel hnames =>
    rw [settings_of_level hfile hshown hlevel, Config.validate_of_not_namesLevel hnames]
    rfl
  | settled hfile hshown hlevel hnames =>
    rw [settings_of_level hfile hshown hlevel, Config.validate_of_namesLevel hnames]
    rfl

/-- Something comes of them. -/
theorem exists_resolves (i : Invocation) (files : Files) (env : Environment) :
    ∃ result, i.Resolves files env result := by
  cases hfile : i.fileSettings files with
  | error e => exact ⟨_, .file hfile⟩
  | ok base =>
    cases happly : base.applyEnvironment env with
    | error e =>
      obtain ⟨text, hunclear, -⟩ := Config.applyEnvironment_eq_error_iff.1 happly
      exact ⟨_, .comments hfile hunclear⟩
    | ok c =>
      obtain ⟨hshown, -⟩ := Config.applyEnvironment_eq_ok_iff.1 happly
      have hlevel := givesLevel_iff.2 (rfl : i.logLevel.getD (env.levelText?.getD base.level) = _)
      by_cases hnames : NamesLevel (i.logLevel.getD (env.levelText?.getD base.level))
      · exact ⟨_, .settled hfile hshown hlevel hnames⟩
      · exact ⟨_, .level hfile hshown hlevel hnames⟩

end

/-- Settings that resolve in one way resolve in no other. -/
theorem settings_eq_iff {i : Invocation} {files : Files} {env : Environment}
    {result : Except Error Config} :
    i.settings files env = result ↔ i.Resolves files env result := by
  refine ⟨?_, Resolves.settings_eq⟩
  rintro rfl
  obtain ⟨result, hresult⟩ := exists_resolves i files env
  rw [hresult.settings_eq]
  exact hresult

/-- The settings depend on the lower layers through the setting for comments and through the
    level that is left. -/
theorem settings_congr {i : Invocation} {files files' : Files} {env env' : Environment}
    {base base' : Config} (hfile : i.fileSettings files = .ok base)
    (hfile' : i.fileSettings files' = .ok base')
    (hbase : base'.allowComments = base.allowComments)
    (henv : env'.allowComments = env.allowComments)
    (hlevel : ∀ level, i.GivesLevel env base.level level → i.GivesLevel env' base'.level level) :
    i.settings files' env' = i.settings files env := by
  have hshown : ∀ shown, env.GivesComments base.allowComments shown →
      env'.GivesComments base'.allowComments shown := by
    intro shown h
    rw [hbase]
    cases h with
    | on hset hon => exact .on (henv.trans hset) hon
    | off hset hoff => exact .off (henv.trans hset) hoff
    | kept hunset => exact .kept (henv ▸ hunset)
  have hresolves : i.Resolves files env (i.settings files env) := settings_eq_iff.1 rfl
  rw [settings_eq_iff]
  generalize i.settings files env = result at hresolves
  cases hresolves with
  | file hrefused => simp [hfile] at hrefused
  | comments hread hunclear => exact .comments hfile' ⟨henv.trans hunclear.1, hunclear.2⟩
  | level hread hgives hlast hnames =>
    obtain rfl := Except.ok.inj (hfile.symm.trans hread)
    exact .level hfile' (hshown _ hgives) (hlevel _ hlast) hnames
  | settled hread hgives hlast hnames =>
    obtain rfl := Except.ok.inj (hfile.symm.trans hread)
    exact .settled hfile' (hshown _ hgives) (hlevel _ hlast) hnames

/-- **Layers**: the settings for an invocation are those that the layers resolve to, in one way
    and in no other: the error of the file; or else an error that names the text of the switch
    for comments; or else an error that names the level that is left; or else the settings.

    So a level that is overridden may be anything: let two rows of layers agree on the setting
    for comments.  If the command line names a level, they have the same outcome whatever
    levels the environment and the file name; and if the environment names one, whatever
    level the file names. -/
theorem settings_layered (i : Invocation) (files : Files) (env : Environment) :
    (∀ result, i.settings files env = result ↔ i.Resolves files env result) ∧
    (∀ text, (ConfigurationFault.unknownSwitch "SHARDSQL_ALLOW_COMMENTS" text).message =
      "invalid SHARDSQL_ALLOW_COMMENTS value: " ++ text) ∧
    (∀ level, (ConfigurationFault.unknownLevel level).message =
      "unknown log level '" ++ level ++ "'") ∧
    ∀ base, i.fileSettings files = .ok base →
      ∀ files' base', i.fileSettings files' = .ok base' →
        base'.allowComments = base.allowComments →
        (∀ level, i.logLevel = some level → ∀ env', env'.allowComments = env.allowComments →
          i.settings files' env' = i.settings files env) ∧
        (∀ text, env.level = some (ofString text) →
          i.settings files' env = i.settings files env) := by
  refine ⟨fun result => settings_eq_iff, ?_, fun level => rfl, ?_⟩
  · intro text
    have hname : "invalid " ++ "SHARDSQL_ALLOW_COMMENTS" ++ " value: " =
        "invalid SHARDSQL_ALLOW_COMMENTS value: " := by decide
    exact congrArg (· ++ text) hname
  · intro base hfile files' base' hfile' hbase
    constructor
    · intro level hgiven env' henv
      apply settings_congr hfile hfile' hbase henv
      intro level' hlevel
      rw [givesLevel_iff, hgiven] at hlevel ⊢
      exact hlevel
    · intro text hset
      apply settings_congr hfile hfile' hbase rfl
      intro level hlevel
      rw [givesLevel_iff, Environment.levelText?_eq_some_iff.2 hset] at hlevel ⊢
      exact hlevel

/-- Levels that are none, in the file and in the environment, below one on the command line;
    and a switch without a meaning, which comes before the level. -/
theorem settings_layered_overridden :
    fileSettings ⟨some "a", some "Trace", .keywords⟩
      (fun _ => some (ofString "lexer.allow_comments = true\nlogging.level = 'loud'")) =
        .ok ⟨true, "loud"⟩ ∧
    settings ⟨some "a", some "Trace", .keywords⟩
      (fun _ => some (ofString "lexer.allow_comments = true\nlogging.level = 'loud'"))
      ⟨some (ofString " Off\n"), some (ofString "chatty")⟩ = .ok ⟨false, "Trace"⟩ ∧
    settings ⟨some "a", some "Trace", .keywords⟩
      (fun _ => some (ofString "lexer.allow_comments = true\nlogging.level = 'warn'"))
      ⟨some (ofString " Off\n"), none⟩ = .ok ⟨false, "Trace"⟩ ∧
    settings ⟨none, some "loud", .keywords⟩ (fun _ => none) ⟨some (ofString "o n"), none⟩ =
      .error (.configuration (.unknownSwitch "SHARDSQL_ALLOW_COMMENTS" "o n")) := by
  have hfile : fileSettings ⟨some "a", some "Trace", .keywords⟩
      (fun _ => some (ofString "lexer.allow_comments = true\nlogging.level = 'loud'")) =
        .ok ⟨true, "loud"⟩ := Config.ofFile_eq_ok_iff.2 ⟨_, rfl, by decide +kernel⟩
  have hfile' : fileSettings ⟨some "a", some "Trace", .keywords⟩
      (fun _ => some (ofString "lexer.allow_comments = true\nlogging.level = 'warn'")) =
        .ok ⟨true, "warn"⟩ := Config.ofFile_eq_ok_iff.2 ⟨_, rfl, by decide +kernel⟩
  have hoff : SwitchesOff " Off\n" := switchesOff_iff.2 (by decide +kernel)
  have hlevel : NamesLevel "Trace" := namesLevel_iff.2 (by decide +kernel)
  have hneither := switch?_eq_none_iff.1 (by decide +kernel : switch? "o n" = none)
  obtain ⟨hresolves, -, -, hmasked⟩ := settings_layered ⟨some "a", some "Trace", .keywords⟩
    (fun _ => some (ofString "lexer.allow_comments = true\nlogging.level = 'loud'"))
    ⟨some (ofString " Off\n"), some (ofString "chatty")⟩
  have hsettled := (hresolves _).2 (.settled hfile (.off rfl hoff) (.given rfl) hlevel)
  obtain ⟨hgiven, -⟩ := hmasked _ hfile _ _ hfile' rfl
  obtain ⟨hunclear, -⟩ := settings_layered ⟨none, some "loud", .keywords⟩ (fun _ => none)
    ⟨some (ofString "o n"), none⟩
  refine ⟨hfile, hsettled, (hgiven "Trace" rfl ⟨_, none⟩ rfl).trans hsettled, ?_⟩
  exact (hunclear _).2 (.comments rfl ⟨rfl, hneither⟩)

end Invocation

end SqlTokens
