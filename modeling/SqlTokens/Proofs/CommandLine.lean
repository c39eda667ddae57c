import Mathlib.Data.List.Perm.Basic
import SqlTokens.Proofs.Delivery
import SqlTokens.Proofs.Options

/-! # Command lines are read back

    Every invocation can be written as a command line: the options of the program, the name of
    the command, the options of the command, and a statement behind two dashes.  It is read back
    as it was, whatever the texts in it are and in whatever order the options stand.

    * **Writing**: `Invocation.IsWrittenAs`.
    * **Reading**: `readCommand_written` for the part of the command, and for all of it
      `Invocation.ofArguments_written`.
    * **Nothing else**: `Invocation.isWritable_of_readProgram` — what is read from any command
      line could be written so. -/

namespace SqlTokens

/-! ## Writing -/

namespace Command

/-- The name of a command. -/
def name : Command → String
  | .tokenize _ _ _ _ => "tokenize"
  | .placeholders _ => "placeholders"
  | .keywords => "keywords"

/-- The options of a command, as they are written. -/
def options : Command → List String
  | .tokenize _ file allowComments json =>
    file.toList.map (fun path => "--file=" ++ path) ++
      (if allowComments then ["--allow-comments"] else []) ++ if json then ["--json"] else []
  | _ => []

/-- The statement of a command, if it has one in the command line. -/
def statement? : Command → Option String
  | .tokenize sql _ _ _ => sql
  | .placeholders sql => some sql
  | .keywords => none

/-- A path is not empty, and it is not given beside a statement. -/
def IsWritable : Command → Prop
  | .tokenize sql file _ _ => file ≠ some "" ∧ (sql = none ∨ file = none)
  | _ => True

end Command

namespace Invocation

/-- The options of the program, as they are written. -/
def options (i : Invocation) : List String :=
  i.config.toList.map (fun path => "--config=" ++ path) ++
    i.logLevel.toList.map fun level => "--log-level=" ++ level

/-- No path is empty, and no statement is given beside a file that it should come from. -/
structure IsWritable (i : Invocation) : Prop where
  config : i.config ≠ some ""
  command : i.command.IsWritable

/-- One of the command lines that an invocation is written as: the options stand in any order,
    and a statement stands at the end, behind two dashes. -/
def IsWrittenAs (i : Invocation) (args : List String) : Prop :=
  ∃ programOptions commandOptions, programOptions.Perm i.options ∧
    commandOptions.Perm i.command.options ∧
    args = programOptions ++ i.command.name :: (commandOptions ++
      i.command.statement?.toList.flatMap fun sql => ["--", sql])

end Invocation

/-! ## Options with their values -/

namespace Command

/-- The scope of a command. -/
def scope : Command → Scope
  | .tokenize _ _ _ _ => .tokenize
  | .placeholders _ => .placeholders
  | .keywords => .keywords

/-- The options of a command with their values. -/
def optionValues : Command → List (Opt × Option String)
  | .tokenize _ file allowComments json =>
    file.toList.map (fun path => (.file, some path)) ++
      (if allowComments then [(.allowComments, none)] else []) ++
        if json then [(.json, none)] else []
  | _ => []

theorem options_eq (command : Command) :
    command.options = Opt.arguments command.optionValues := by
  have hfile : ∀ path, Opt.argument .file (some path) = "--file=" ++ path := fun path =>
    congrArg (· ++ path) (by decide : "--" ++ "file" ++ "=" = "--file=")
  have hcomments : Opt.argument .allowComments none = "--allow-comments" := by decide
  have hjson : Opt.argument .json none = "--json" := by decide
  cases command with
  | tokenize sql file allowComments json =>
    cases file <;> cases allowComments <;> cases json <;>
      simp [options, optionValues, Opt.arguments, hfile, hcomments, hjson]
  | placeholders sql => rfl
  | keywords => rfl

theorem fits_optionValues {command : Command} (h : command.IsWritable) :
    command.scope.Fits command.optionValues := by
  cases command with
  | tokenize sql file allowComments json =>
    have hfile : ∀ path, file = some path →
        Opt.file ∈ Scope.options .tokenize ∧ Opt.file.Accepts (some path) := fun path hpath =>
      ⟨by decide, rfl, fun _ => hpath ▸ h.1, by decide⟩
    have hcomments : Opt.allowComments ∈ Scope.options .tokenize ∧
        Opt.allowComments.Accepts none := ⟨by decide, rfl, by decide, by decide⟩
    have hjson : Opt.json ∈ Scope.options .tokenize ∧ Opt.json.Accepts none :=
      ⟨by decide, rfl, by decide, by decide⟩
    constructor
    case each =>
      cases file <;> cases allowComments <;> cases json <;>
        simp [optionValues, scope, hfile, hcomments, hjson]
    case nodup => cases file <;> cases allowComments <;> cases json <;> simp [optionValues]
  | placeholders sql => exact ⟨by simp [optionValues], by simp [optionValues]⟩
  | keywords => exact ⟨by simp [optionValues], by simp [optionValues]⟩

end Command

namespace Invocation

/-- The options of the program with their values. -/
def optionValues (i : Invocation) : List (Opt × Option String) :=
  i.config.toList.map (fun path => (.config, some path)) ++
    i.logLevel.toList.map fun level => (.logLevel, some level)

theorem options_eq (i : Invocation) : i.options = Opt.arguments i.optionValues := by
  have hconfig : ∀ path, Opt.argument .config (some path) = "--config=" ++ path := fun path =>
    congrArg (· ++ path) (by decide : "--" ++ "config" ++ "=" = "--config=")
  have hlevel : ∀ level, Opt.argument .logLevel (some level) = "--log-level=" ++ level :=
    fun level => congrArg (· ++ level) (by decide : "--" ++ "log-level" ++ "=" = "--log-level=")
  obtain ⟨config, logLevel, command⟩ := i
  cases config <;> cases logLevel <;>
    simp [options, optionValues, Opt.arguments, hconfig, hlevel]

theorem fits_optionValues {i : Invocation} (h : i.config ≠ some "") :
    Scope.program.Fits i.optionValues := by
  obtain ⟨config, logLevel, command⟩ := i
  have hconfig : ∀ path, config = some path →
      Opt.config ∈ Scope.options .program ∧ Opt.config.Accepts (some path) := fun path hpath =>
    ⟨by decide, rfl, fun _ => hpath ▸ h, by decide⟩
  have hlevel : ∀ level, Opt.logLevel.Accepts (some level) := fun level =>
    ⟨rfl, fun hpath => absurd hpath (by decide), by decide⟩
  have hmem : Opt.logLevel ∈ Scope.options .program := by decide
  constructor
  case each => cases config <;> cases logLevel <;> simp [optionValues, hconfig, hlevel, hmem]
  case nodup => cases config <;> cases logLevel <;> simp [optionValues]

end Invocation

/-! ## Reading -/

/-- Options that stand in any order are the arguments for their values, in some order. -/
theorem Opt.exists_perm_of_arguments {args : List String} {settings : List (Opt × Option String)}
    (h : args.Perm (Opt.arguments settings)) :
    ∃ settings', settings'.Perm settings ∧ args = Opt.arguments settings' := by
  have hcomp := congrFun (congrFun (List.eq_map_comp_perm
    fun setting : Opt × Option String => setting.1.argument setting.2) args) settings
  obtain ⟨settings', hargs, hperm⟩ := hcomp.mpr h
  exact ⟨settings', hperm, hargs⟩

/-- A statement behind two dashes is an operand, whatever it is. -/
theorem Given.read_statement {scope : Scope} {sql? : Option String}
    (h : sql?.isSome = true → 0 < scope.operandLimit) (settings : List (Opt × Option String)) :
    (ofSettings settings).read scope (sql?.toList.flatMap fun sql => ["--", sql]) =
      .ok ⟨settings, none, sql?.toList, sql?.isSome⟩ := by
  cases sql? with
  | none => rfl
  | some sql =>
    have hseparator : (ofSettings settings).add scope "--" = .ok ⟨settings, none, [], true⟩ := by
      unfold add
      rw [if_neg (by simp [ofSettings]), (by decide : Shape.of "--" = .separator)]
      rfl
    have hoperand : add scope ⟨settings, none, [], true⟩ sql =
        .ok ⟨settings, none, [sql], true⟩ := by
      unfold add
      rw [if_pos rfl]
      exact if_pos (h rfl)
    show ((ofSettings settings).add scope "--" >>= fun g => g.read scope [sql]) = _
    rw [hseparator, ok_bind]
    show (add scope ⟨settings, none, [], true⟩ sql >>= fun g => g.read scope []) = _
    rw [hoperand]
    rfl

/-- The options and the statement of a command say which it is. -/
theorem commandOf_written {command : Command} (h : command.IsWritable)
    {settings : List (Opt × Option String)} (hperm : settings.Perm command.optionValues) :
    commandOf command.scope ⟨settings, none, command.statement?.toList,
      command.statement?.isSome⟩ = .ok command := by
  have hlookup : ∀ o, settings.lookup o = command.optionValues.lookup o :=
    lookup_perm ((Command.fits_optionValues h).perm hperm).nodup hperm
  cases command with
  | tokenize sql file allowComments json =>
    obtain ⟨-, hone⟩ := h
    have hfile : (settings.lookup .file).join = file := by
      rw [hlookup]
      cases file <;> cases allowComments <;> cases json <;> rfl
    have hcomments : (settings.lookup .allowComments).isSome = allowComments := by
      rw [hlookup]
      cases file <;> cases allowComments <;> cases json <;> rfl
    have hjson : (settings.lookup .json).isSome = json := by
      rw [hlookup]
      cases file <;> cases allowComments <;> cases json <;> rfl
    have hconflict : (file.isSome && sql.isSome) = false := by
      rcases hone with rfl | rfl
      · exact Bool.and_false _
      · rfl
    simp [commandOf, Command.scope, Command.statement?, Given.value?, Given.has, hfile, hcomments,
      hjson, hconflict]
  | placeholders sql => rfl
  | keywords => rfl

/-- **Commands**: what is written of a command is read as that command. -/
theorem readCommand_written {command : Command} (h : command.IsWritable) {options : List String}
    (hoptions : options.Perm command.options) :
    readCommand command.scope (options ++
      command.statement?.toList.flatMap fun sql => ["--", sql]) = .ok command := by
  rw [command.options_eq] at hoptions
  obtain ⟨settings, hperm, rfl⟩ := Opt.exists_perm_of_arguments hoptions
  have hfits : command.scope.Fits ([] ++ settings) := (Command.fits_optionValues h).perm hperm
  have hlimit : command.statement?.isSome = true → 0 < command.scope.operandLimit := by
    cases command <;> simp [Command.statement?, Command.scope, Scope.operandLimit]
  have hread := Given.read_settings hfits (command.statement?.toList.flatMap fun sql => ["--", sql])
  rw [List.nil_append, Given.read_statement hlimit] at hread
  unfold readCommand
  show ((Given.ofSettings []).read _ _ >>= fun g => g.settlePending >>= commandOf command.scope) = _
  rw [hread]
  exact commandOf_written h hperm

theorem Command.lookup_name (command : Command) :
    Scope.commands.lookup command.name = some command.scope := by
  cases command with
  | tokenize _ _ _ _ => exact (by decide : Scope.commands.lookup "tokenize" = some .tokenize)
  | placeholders _ => exact (by decide : Scope.commands.lookup "placeholders" = some .placeholders)
  | keywords => exact (by decide : Scope.commands.lookup "keywords" = some .keywords)

/-- **Command lines**: what is written of an invocation is read as that invocation. -/
theorem Invocation.ofArguments_written {i : Invocation} (h : i.IsWritable) {args : List String}
    (hargs : i.IsWrittenAs args) : ofArguments args = .ok i := by
  obtain ⟨options, commandOptions, hoptions, hcommand, rfl⟩ := hargs
  rw [i.options_eq] at hoptions
  obtain ⟨settings, hperm, rfl⟩ := Opt.exists_perm_of_arguments hoptions
  have hfits : Scope.program.Fits ([] ++ settings) := (fits_optionValues h.config).perm hperm
  have hlookup : ∀ o, settings.lookup o = i.optionValues.lookup o := lookup_perm hfits.nodup hperm
  have hcommand := readCommand_written h.command hcommand
  have hscope := i.command.lookup_name
  have hname : (!(Given.ofSettings settings).isLiteral &&
      !(Given.ofSettings settings).awaitsValue && Scope.isCommandName i.command.name) = true := by
    simp [Given.ofSettings, Given.awaitsValue, Scope.isCommandName, hscope]
  show readProgram (.ofSettings []) _ = _
  rw [readProgram_settings hfits, List.nil_append, readProgram, if_pos hname, hscope]
  show (readCommand i.command.scope _ >>= _) = _
  rw [hcommand]
  show Except.ok (Invocation.mk (settings.lookup .config).join (settings.lookup .logLevel).join
    i.command) = .ok i
  rw [hlookup, hlookup]
  obtain ⟨config, logLevel, command⟩ := i
  cases config <;> cases logLevel <;> rfl

/-! ## Nothing else -/

theorem Command.isWritable_of_commandOf {scope : Scope} {g : Given} {command : Command}
    (h : g.IsFilled) (hcommand : commandOf scope g = .ok command) : command.IsWritable := by
  unfold commandOf at hcommand
  split at hcommand
  · dsimp only at hcommand
    split at hcommand
    · cases hcommand
    next hone =>
    cases hcommand
    refine ⟨h.value? rfl, ?_⟩
    cases hfile : g.value? .file with
    | none => exact .inr rfl
    | some path => exact .inl (by simpa [hfile] using hone)
  · split at hcommand
    · cases hcommand
    · cases hcommand
      trivial
  · cases hcommand
    trivial
  · cases hcommand

theorem Command.isWritable_of_readCommand {scope : Scope} {args : List String} {command : Command}
    (h : readCommand scope args = .ok command) : command.IsWritable := by
  obtain ⟨g, hg, h⟩ := of_bind_eq_ok h
  obtain ⟨settled, hsettled, hcommand⟩ := of_bind_eq_ok h
  exact isWritable_of_commandOf ((Given.isFilled_empty.read hg).settlePending hsettled) hcommand

theorem Invocation.isWritable_of_readProgram {g : Given} {args : List String} {i : Invocation}
    (hg : g.IsFilled) (h : readProgram g args = .ok i) : i.IsWritable := by
  induction args generalizing g with
  | nil =>
    obtain ⟨settled, -, hlast⟩ := of_bind_eq_ok h
    split at hlast
    · cases hlast
    · cases hlast
  | cons arg args ih =>
    unfold readProgram at h
    split at h
    · split at h
      · cases h
      · obtain ⟨command, hcommand, h⟩ := of_bind_eq_ok h
        obtain ⟨settled, hsettled, hlast⟩ := of_bind_eq_ok h
        cases hlast
        exact ⟨(hg.settlePending hsettled).value? rfl, Command.isWritable_of_readCommand hcommand⟩
    · obtain ⟨next, hnext, hmore⟩ := of_bind_eq_ok h
      exact ih (hg.add hnext) hmore

/-- A file that is given is read, and nothing else is taken for the statement. -/
theorem Command.execute_file {sql : Option String} {path : String} {allowComments json : Bool}
    (h : IsWritable (.tokenize sql (some path) allowComments json)) (config : Config)
    (files : Files) (sink : Sink) :
    (∀ fault, readText (files path) = .error fault →
      execute (.tokenize sql (some path) allowComments json) config files sink =
        ("", .error (.io fault))) ∧
    ∀ text, readText (files path) = .ok text →
      execute (.tokenize sql (some path) allowComments json) config files sink =
        execute (.tokenize (some text) none allowComments json) config files sink := by
  have hsql : sql = none := h.2.resolve_right (Option.some_ne_none path)
  have hsource : statementText files sql (some path) = (readText (files path)).mapError .io := by
    rw [hsql]
    rfl
  constructor
  · intro fault hfault
    rw [hfault] at hsource
    rw [execute, plan, hsource]
    exact Plan.deliver_failed _ sink
  · intro text htext
    rw [htext] at hsource
    rw [execute_tokenize hsource]
    exact (execute_tokenize rfl config allowComments json sink).symm

/-- **Command lines**: an invocation whose paths are not empty, with no statement beside a
    file, is read from every command line that it is written as, whatever the texts in it are
    and in whatever order the options stand.

    No command line is read as any other invocation.  So a file that is given is never passed
    over: there is no statement beside it, and the command fails if the file cannot be read,
    and else does what it does with the text of the file as the statement. -/
theorem Invocation.ofArguments_inverse (i : Invocation) :
    (i.IsWritable → ∀ args, i.IsWrittenAs args → ofArguments args = .ok i) ∧
    ∀ args, ofArguments args = .ok i →
      i.IsWritable ∧
      ∀ sql path allowComments json, i.command = .tokenize sql (some path) allowComments json →
        sql = none ∧ ∀ config files sink,
          (∀ fault, readText (files path) = .error fault →
            i.command.execute config files sink = ("", .error (.io fault))) ∧
          ∀ text, readText (files path) = .ok text →
            i.command.execute config files sink =
              Command.execute (.tokenize (some text) none allowComments json)
                config files sink := by
  refine ⟨fun h args hargs => ofArguments_written h hargs, ?_⟩
  intro args hargs
  have hwritable := isWritable_of_readProgram Given.isFilled_empty hargs
  refine ⟨hwritable, ?_⟩
  intro sql path allowComments json htokenize
  have hcommand := hwritable.command
  rw [htokenize] at hcommand ⊢
  exact ⟨hcommand.2.resolve_right (Option.some_ne_none path), Command.execute_file hcommand⟩

/-- Texts that look like options and like names of commands, and an empty statement. -/
theorem Invocation.ofArguments_inverse_lookalikes :
    ofArguments ["--log-level=keywords", "--config=--json", "tokenize", "--json",
      "--allow-comments", "--", "--file=x"] =
        .ok ⟨some "--json", some "keywords", .tokenize (some "--file=x") none true true⟩ ∧
    ofArguments ["placeholders", "--", ""] = .ok ⟨none, none, .placeholders ""⟩ ∧
    ofArguments ["tokenize", "--file=--"] =
      .ok ⟨none, none, .tokenize none (some "--") false false⟩ ∧
    Command.execute (.tokenize none (some "--") false false) .standard (fun _ => none) .accepting =
      ("", .error (.io .notFound)) := by
  obtain ⟨hread, -⟩ := ofArguments_inverse
    ⟨some "--json", some "keywords", .tokenize (some "--file=x") none true true⟩
  obtain ⟨hread', -⟩ := ofArguments_inverse ⟨none, none, .placeholders ""⟩
  obtain ⟨hread'', hfile⟩ := ofArguments_inverse
    ⟨none, none, .tokenize none (some "--") false false⟩
  have hargs := hread'' ⟨by decide, by decide, .inl rfl⟩ ["tokenize", "--file=--"]
    ⟨[], ["--file=--"], by decide, by decide, rfl⟩
  obtain ⟨-, hexecute⟩ := hfile _ hargs
  obtain ⟨-, hsource⟩ := hexecute none "--" false false rfl
  refine ⟨?_, ?_, hargs, (hsource .standard (fun _ => none) .accepting).1 .notFound rfl⟩
  · exact hread ⟨by decide, by decide, .inr rfl⟩ _
      ⟨["--log-level=keywords", "--config=--json"], ["--json", "--allow-comments"],
        by decide, by decide, rfl⟩
  · exact hread' ⟨by decide, trivial⟩ _ ⟨[], [], by decide, by decide, rfl⟩

end SqlTokens
