import SqlTokens.Proofs.Histories
import SqlTokens.Proofs.Overrides
import SqlTokens.Proofs.Stepwise.Settings

/-! # Settings change as a whole

    A command on the settings does all that it has to do, or it fails and does nothing.  That
    holds in any history, also when the settings are edited in place.

    * **The environment**: `Config.applyEnvironment_again` — what has overridden the settings
      once does not change them again; `Config.exists_applyEnvironment_iff` — whether it can
      override them has nothing to do with them.
    * **Histories**: `Config.Context.run_atomic`, from one command (`isAtomic_perform`). -/

namespace SqlTokens

open Utf8 (ofString)

namespace Environment

/-- A variable gives the same setting over the one that it gave. -/
theorem GivesComments.again {env : Environment} {below shown : Bool}
    (h : env.GivesComments below shown) : env.GivesComments shown shown := by
  cases h with
  | on hset hon => exact .on hset hon
  | off hset hoff => exact .off hset hoff
  | kept hunset => exact .kept hunset

theorem GivesLevel.again {env : Environment} {below level : String}
    (h : env.GivesLevel below level) : env.GivesLevel level level := by
  cases h with
  | set hset => exact .set hset
  | kept hunset => exact .kept hunset

end Environment

namespace Config

/-- Settings that the environment has overridden stay as they are when it does so again. -/
theorem applyEnvironment_again {env : Environment} {c result : Config}
    (h : c.applyEnvironment env = .ok result) : result.applyEnvironment env = .ok result := by
  obtain ⟨hshown, hlevel⟩ := applyEnvironment_eq_ok_iff.1 h
  exact applyEnvironment_eq_ok_iff.2 ⟨hshown.again, hlevel.again⟩

/-- The environment can override any settings, or none. -/
theorem exists_applyEnvironment_iff {env : Environment} {c : Config} :
    (∃ result, c.applyEnvironment env = .ok result) ↔ ¬∃ text, env.IsUnclear text := by
  constructor
  · rintro ⟨result, hresult⟩ ⟨text, hunclear⟩
    have herror := (applyEnvironment_eq_error_iff (c := c)).2 ⟨text, hunclear, rfl⟩
    simp [hresult] at herror
  · intro hclear
    cases happly : c.applyEnvironment env with
    | ok result => exact ⟨result, rfl⟩
    | error e =>
      obtain ⟨text, hunclear, -⟩ := applyEnvironment_eq_error_iff.1 happly
      exact absurd ⟨text, hunclear⟩ hclear

namespace Context

/-! ## One command -/

/-- What one command does to the context, and what it answers. -/
structure IsAtomic (before : Context) (command : Command) (reply : Reply) (after : Context) :
    Prop where
  /-- A command that fails has changed nothing. -/
  kept : ∀ e, reply = .failed e → after = before
  /-- Overriding fails for one cause, whatever the settings and the level of the environment
      are. -/
  refused : command = .applyEnvironment → ∀ e, reply = .failed e ↔
    ∃ text, before.environment.IsUnclear text ∧
      e = .configuration (.unknownSwitch "SHARDSQL_ALLOW_COMMENTS" text)
  /-- Without that cause, each setting is overridden by its variable if that is set to a text,
      and nothing else is changed; and a second time nothing is changed at all. -/
  overridden : command = .applyEnvironment → (¬∃ text, before.environment.IsUnclear text) →
    reply = .done ∧
      before.environment.GivesComments before.config.allowComments after.config.allowComments ∧
      before.environment.GivesLevel before.config.level after.config.level ∧
      after = { before with config := after.config } ∧
      after.perform .applyEnvironment = (.done, after)
  /-- The environment alone gives settings just where it could override any, and gives what it
      makes of the standard ones. -/
  replaced : command = .takeEnvironment →
    (∀ config, reply = .done ↔ ({ before with config }.perform .applyEnvironment).1 = .done) ∧
      (reply = .done → after = ({ before with config := standard }.perform .applyEnvironment).2)

section
variable {x : Context} {answer : Config → Reply} {result : Except Error Config} {e : Error}

/-- A result is put in force as a whole, or nothing is changed. -/
theorem replace_cases (hanswer : ∀ config e, answer config ≠ .failed e) :
    (x.replace answer result).2 = x ∨ ∃ config,
      (x.replace answer result).2 = { x with config } ∧
        ∀ e, (x.replace answer result).1 ≠ .failed e := by
  cases result with
  | error e => exact .inl rfl
  | ok config => exact .inr ⟨config, rfl, hanswer config⟩

theorem replace_failed_iff :
    (x.replace (fun _ => .done) result).1 = .failed e ↔ result = .error e := by
  cases result with
  | error e' => simp [replace]
  | ok config => simp [replace]

theorem replace_done_iff :
    (x.replace (fun _ => .done) result).1 = .done ↔ ∃ config, result = .ok config := by
  cases result with
  | error e' => simp [replace]
  | ok config => simp [replace]

end

/-- What a command leaves: all as it was; other settings, if it does not fail; other variables;
    or, if it saves the settings, another file. -/
theorem perform_cases (x : Context) (command : Command) :
    ((x.perform command).2 = x ∨ ∃ config, (x.perform command).2 = { x with config } ∧
        ∀ e, (x.perform command).1 ≠ .failed e) ∨
      (∃ environment, x.perform command = (.done, { x with environment })) ∨
      command = .save true := by
  cases command with
  | setEnvironment environment => exact .inr (.inl ⟨environment, rfl⟩)
  | applyEnvironment => exact .inl (replace_cases (by simp))
  | takeEnvironment => exact .inl (replace_cases (by simp))
  | load content => exact .inl (replace_cases (by simp))
  | save placeExists =>
    cases placeExists with
    | true => exact .inr (.inr rfl)
    | false => exact .inl (.inl rfl)
  | reload => exact .inl (replace_cases (by simp))
  | set config => exact .inl (.inr ⟨config, rfl, fun e => by simp [perform]⟩)
  | validate =>
    left
    left
    unfold perform
    cases x.config.validate with
    | error e => rfl
    | ok _ => rfl
  | isStandard => exact .inl (.inl rfl)

/-- A command that fails leaves the context as it was. -/
theorem perform_of_failed {x : Context} {command : Command} {e : Error}
    (h : (x.perform command).1 = .failed e) : (x.perform command).2 = x := by
  rcases x.perform_cases command with (hkept | ⟨config, -, hanswer⟩) | ⟨environment, hset⟩ | rfl
  · exact hkept
  · exact absurd h (hanswer e)
  · rw [hset] at h
    cases h
  · cases h

/-- Overriding succeeds unless the switch for comments is unclear. -/
theorem perform_applyEnvironment_done_iff (x : Context) :
    (x.perform .applyEnvironment).1 = .done ↔ ¬∃ text, x.environment.IsUnclear text :=
  replace_done_iff.trans exists_applyEnvironment_iff

/-- **One command**: all that it has to do, or nothing. -/
theorem isAtomic_perform (x : Context) (command : Command) :
    x.IsAtomic command (x.perform command).1 (x.perform command).2 := by
  constructor
  case kept =>
    intro e hfailed
    exact perform_of_failed hfailed
  case refused =>
    rintro rfl e
    exact replace_failed_iff.trans applyEnvironment_eq_error_iff
  case overridden =>
    rintro rfl hclear
    obtain ⟨config, hconfig⟩ := exists_applyEnvironment_iff (c := x.config).2 hclear
    obtain ⟨hshown, hlevel⟩ := applyEnvironment_eq_ok_iff.1 hconfig
    have hperform : x.perform .applyEnvironment = (.done, { x with config }) := by
      show x.replace _ (x.config.applyEnvironment x.environment) = _
      rw [hconfig]
      rfl
    have hagain : Context.perform { x with config } .applyEnvironment =
        (.done, { x with config }) := by
      show replace _ _ (config.applyEnvironment x.environment) = _
      rw [applyEnvironment_again hconfig]
      rfl
    rw [hperform]
    exact ⟨rfl, hshown, hlevel, rfl, hagain⟩
  case replaced =>
    rintro rfl
    have hdone : (x.perform .takeEnvironment).1 = .done ↔
        ¬∃ text, x.environment.IsUnclear text :=
      replace_done_iff.trans exists_applyEnvironment_iff
    constructor
    · intro config
      rw [hdone, perform_applyEnvironment_done_iff]
    · intro hreply
      obtain ⟨config, hconfig⟩ := replace_done_iff.1 hreply
      have happly : standard.applyEnvironment x.environment = .ok config := hconfig
      show (x.replace _ (standard.applyEnvironment x.environment)).2 =
        (replace { x with config := standard } _ (standard.applyEnvironment x.environment)).2
      rw [happly]
      rfl

/-! ## Histories -/

/-- The context after commands. -/
def after (x : Context) (commands : List Command) : Context :=
  commands.foldl (fun y command => (y.perform command).2) x

theorem runsBy_run : RunsBy perform run :=
  ⟨fun _ => rfl, fun _ _ _ => rfl⟩

/-- **Histories**: commands that edit the settings in place have the effects of commands that
    replace them as a whole.  Each command of a history finds the context that the earlier ones
    leave, and does all that it has to do or nothing. -/
theorem run_atomic (x : Context) (commands : List Command) :
    x.runInPlace commands = x.run commands ∧
    (x.run commands).length = commands.length ∧
    ∀ i command, commands[i]? = some command →
      ∃ reply left, (x.run commands)[i]? = some (reply, left) ∧
        x.after (commands.take (i + 1)) = left ∧
        (x.after (commands.take i)).IsAtomic command reply left := by
  refine ⟨x.runInPlace_eq commands, runsBy_run.length_eq x commands, ?_⟩
  intro i command h
  exact ⟨_, _, runsBy_run.getElem?_eq h, stateAfter_take_succ h, isAtomic_perform _ command⟩

/-- A switch without a meaning, beside a level that is one: neither setting is overridden. -/
theorem run_atomic_unclear :
    (run start [.set ⟨false, "warn"⟩,
      .setEnvironment ⟨some (ofString "maybe"), some (ofString "debug")⟩,
      .applyEnvironment])[2]? =
    some (.failed (.configuration (.unknownSwitch "SHARDSQL_ALLOW_COMMENTS" "maybe")),
      ⟨⟨false, "warn"⟩, ⟨some (ofString "maybe"), some (ofString "debug")⟩, none⟩) := by
  have hneither := switch?_eq_none_iff.1 (by decide +kernel : switch? "maybe" = none)
  obtain ⟨-, -, hsteps⟩ := run_atomic start [.set ⟨false, "warn"⟩,
    .setEnvironment ⟨some (ofString "maybe"), some (ofString "debug")⟩, .applyEnvironment]
  obtain ⟨reply, left, hrun, -, hatomic⟩ := hsteps 2 .applyEnvironment rfl
  have hreply := (hatomic.refused rfl _).2 ⟨"maybe", ⟨rfl, hneither⟩, rfl⟩
  rw [hrun, hatomic.kept _ hreply, hreply]
  rfl

end Context

end Config

end SqlTokens
