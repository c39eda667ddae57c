import SqlTokens.CommandLine.Execution
import SqlTokens.Proofs.Diagnosis
import SqlTokens.Proofs.Numbering
import SqlTokens.Proofs.Stepwise.Commands
import SqlTokens.Template.Basic

/-! # One verdict on a statement

    A statement may be tokenized, asked for its placeholders, made a template or given
    to the program.  Whichever way it is taken, the verdict is the same: it is refused
    if a token is malformed, and the error is about the first such token
    (`entryPoints_agree`).  All of them read the statement with a lexer, whose verdict
    does not depend on the comments (`Lexer.failure?_tokenize`).  The program has loops of
    its own for that, and pull by pull they do what is said of the commands here
    (`Stepwise.execute_eq`). -/

namespace SqlTokens

open Utf8 (ofString)

/-- The error of a result, if it is one. -/
def failure? {α : Type} : Except Error α → Option Error
  | .error e => some e
  | .ok _ => none

/-- What is done with a result does not matter to its error. -/
theorem failure?_bind_pure {α β : Type} (x : Except Error α) (f : α → β) :
    failure? (x >>= fun a => pure (f a)) = failure? x := by
  cases x with
  | error e => rfl
  | ok a => rfl

/-- The error that a statement is refused with, if it has a malformed token. -/
def syntaxError? (input : Bytes) : Option Error :=
  ((scanned input).find? fun x => x.token.isMalformed).map fun x => .sqlParsing x.diagnosis

theorem syntaxError?_of_wellFormed {input : Bytes}
    (h : ∀ x ∈ scanned input, x.token.isMalformed = false) : syntaxError? input = none := by
  have hnone : (scanned input).find? (fun x => x.token.isMalformed) = none := by
    rw [List.find?_eq_none]
    intro x hx
    rw [h x hx]
    exact Bool.false_ne_true
  rw [syntaxError?, hnone, Option.map_none]

theorem exists_syntaxError? {input : Bytes}
    (h : ∃ x ∈ scanned input, x.token.isMalformed = true) :
    ∃ message, syntaxError? input = some (.sqlParsing message) := by
  obtain ⟨x, hx, hmalformed⟩ := h
  cases hfind : (scanned input).find? fun x => x.token.isMalformed with
  | none => exact absurd hmalformed (List.find?_eq_none.1 hfind x hx)
  | some y => exact ⟨y.diagnosis, by rw [syntaxError?, hfind, Option.map_some]⟩

theorem exists_value_of_mem_scanned {input : Bytes} {x : Scanned} (hx : x ∈ scanned input)
    (h : x.token.isMalformed = true) : ∃ value, x.token.value = some value := by
  have hkind := Token.isMalformed_iff.1 h
  rcases spells_of_mem_scanned hx with ⟨hend, -⟩ | ⟨content, hspells, hvalue, -⟩
  · cases hkind.symm.trans hend
  · rw [hkind] at hspells
    rw [hvalue]
    exact exists_value?_of_spells hspells _

/-- The error is about the first malformed token: it names the place behind it, and its
    text. -/
theorem syntaxError?_eq_some_iff {input : Bytes} {e : Error} :
    syntaxError? input = some e ↔
      ∃ before x after value, scanned input = before ++ x :: after ∧
        (∀ y ∈ before, y.token.isMalformed = false) ∧ x.token.isMalformed = true ∧
        x.token.value = some value ∧
        e = .sqlParsing ("syntax error at position " ++ toString x.stop ++ " near " ++
          Utf8.toStringLossy value) := by
  rw [syntaxError?, Option.map_eq_some_iff]
  constructor
  · rintro ⟨x, hfind, rfl⟩
    obtain ⟨hx, before, after, hsplit, hbefore⟩ := List.find?_eq_some_iff_append.1 hfind
    obtain ⟨value, hvalue⟩ := exists_value_of_mem_scanned (List.mem_of_find?_eq_some hfind) hx
    refine ⟨before, x, after, value, hsplit, ?_, hx, hvalue, ?_⟩
    · intro y hy
      simpa using hbefore y hy
    · rw [Scanned.diagnosis_of_value hvalue]
  · rintro ⟨before, x, after, value, hsplit, hbefore, hx, hvalue, rfl⟩
    refine ⟨x, ?_, ?_⟩
    · exact List.find?_eq_some_iff_append.2
        ⟨hx, before, after, hsplit, fun y hy => by simp [hbefore y hy]⟩
    · rw [Scanned.diagnosis_of_value hvalue]

/-! ## Through the library -/

namespace Lexer

theorem failure?_result (c : Course) : failure? c.result = c.error? := by
  rw [Course.result]
  cases c.error? with
  | none => rfl
  | some e => rfl

theorem error?_readStatement (input : Bytes) (shown : Bool) :
    ((start input).showComments shown).readStatement.error? = syntaxError? input := by
  have hstream : ((start input).showComments shown).stream = scanned input :=
    stream_congr rfl rfl
  rw [error?_eq, hstream, syntaxError?]

theorem failure?_tokenize (input : Bytes) (shown : Bool) :
    failure? ((start input).showComments shown).tokenize = syntaxError? input :=
  (failure?_result _).trans (error?_readStatement input shown)

theorem failure?_placeholderNames (sql : String) :
    failure? (placeholderNames sql) = syntaxError? (ofString sql) :=
  (failure?_bind_pure _ _).trans (failure?_tokenize (ofString sql) false)

theorem failure?_ordinalNames (sql : String) :
    failure? (ordinalNames sql) = syntaxError? (ofString sql) :=
  (failure?_bind_pure _ _).trans (failure?_tokenize (ofString sql) false)

end Lexer

theorem Template.failure?_ofText (sql : String) :
    failure? (ofText sql) = syntaxError? (ofString sql) :=
  (failure?_bind_pure _ _).trans (Lexer.failure?_ordinalNames sql)

/-! ## Through the program -/

theorem readText_ofString (text : String) : readText (some (ofString text)) = .ok text := by
  rw [readText, Utf8.toString?_ofString]

theorem failure?_planTokens (sql : String) (showsComments json : Bool) :
    failure? (planTokens sql showsComments json).outcome = syntaxError? (ofString sql) := by
  rw [← Lexer.failure?_tokenize (ofString sql) showsComments, planTokens]
  cases ((Lexer.start (ofString sql)).showComments showsComments).tokenize with
  | error e => rfl
  | ok tokens => rfl

theorem failure?_planPlaceholders (sql : String) :
    failure? (planPlaceholders sql).outcome = syntaxError? (ofString sql) := by
  have herror : (Lexer.start (ofString sql)).readStatement.error? = syntaxError? (ofString sql) :=
    Lexer.error?_readStatement (ofString sql) false
  rw [← herror]
  unfold planPlaceholders Lexer.placeholderPlan
  dsimp only
  cases (Lexer.start (ofString sql)).readStatement.error? with
  | none => rfl
  | some e => rfl

/-- A statement that is given, or is in a file, is listed or refused. -/
theorem execute_tokenize {sql : String} {given file : Option String} {files : Files}
    (h : statementText files given file = .ok sql) (config : Config) (allowComments json : Bool)
    (sink : Sink) :
    (Command.tokenize given file allowComments json).execute config files sink =
      (planTokens sql (allowComments || config.allowComments) json).deliver sink := by
  rw [Command.execute, Command.plan, h]

theorem failure?_execute_tokenize {sql : String} {given file : Option String} {files : Files}
    (h : statementText files given file = .ok sql) (config : Config) (allowComments json : Bool) :
    failure? ((Command.tokenize given file allowComments json).execute config files
      .accepting).2 = syntaxError? (ofString sql) := by
  rw [execute_tokenize h]
  exact failure?_planTokens sql (allowComments || config.allowComments) json

/-- **One verdict**: whichever way a statement is taken, it is refused with the same
    error or not at all, and the loops of the program, pull by pull, do what is said of its
    commands.  The statement is refused if a token is malformed, and the error names the
    place behind the first such token, and its text. -/
theorem entryPoints_agree (sql : String) (config : Config) (files : Files) :
    let verdict := syntaxError? (ofString sql)
    (∀ shown, failure? ((Lexer.start (ofString sql)).showComments shown).tokenize = verdict) ∧
    failure? (Lexer.placeholderNames sql) = verdict ∧
    failure? (Lexer.ordinalNames sql) = verdict ∧
    failure? (Template.ofText sql) = verdict ∧
    (∀ given file allowComments json, statementText files given file = .ok sql →
      failure? ((Command.tokenize given file allowComments json).execute config files
        .accepting).2 = verdict) ∧
    failure? ((Command.placeholders sql).execute config files .accepting).2 = verdict ∧
    (∀ command sink, Stepwise.execute command config files sink =
      .ok (command.execute config files sink)) ∧
    ∀ e, verdict = some e ↔
      ∃ before x after value, scanned (ofString sql) = before ++ x :: after ∧
        (∀ y ∈ before, y.token.isMalformed = false) ∧ x.token.isMalformed = true ∧
        x.token.value = some value ∧
        e = .sqlParsing ("syntax error at position " ++ toString x.stop ++ " near " ++
          Utf8.toStringLossy value) := by
  intro verdict
  refine ⟨?_, ?_, ?_, ?_, ?_, ?_, ?_, ?_⟩
  · intro shown
    exact Lexer.failure?_tokenize (ofString sql) shown
  · exact Lexer.failure?_placeholderNames sql
  · exact Lexer.failure?_ordinalNames sql
  · exact Template.failure?_ofText sql
  · intro given file allowComments json hsql
    exact failure?_execute_tokenize hsql config allowComments json
  · exact failure?_planPlaceholders sql
  · intro command sink
    exact Stepwise.execute_eq command config files sink
  · intro e
    exact syntaxError?_eq_some_iff

/-- A literal without its end, behind a comment that may be hidden, is refused from a
    file as it is refused from the command line. -/
theorem entryPoints_agree_cutOff :
    let files : Files := fun path => if path = "q.sql" then some (ofString "?--\n'it''s") else none
    let e := Error.sqlParsing "syntax error at position 11 near it's"
    statementText files none (some "q.sql") = .ok "?--\n'it''s" ∧
    failure? ((Command.tokenize none (some "q.sql") false true).execute ⟨true, "info"⟩ files
      .accepting).2 = some e ∧
    failure? ((Command.placeholders "?--\n'it''s").execute ⟨true, "info"⟩ files
      .accepting).2 = some e := by
  intro files e
  have hfile : statementText files none (some "q.sql") = .ok "?--\n'it''s" := by
    rw [statementText, show files "q.sql" = some (ofString "?--\n'it''s") from if_pos rfl,
      readText_ofString]
    rfl
  have hverdict : syntaxError? (ofString "?--\n'it''s") = some e := by decide +kernel
  obtain ⟨-, -, -, -, htokenize, hplaceholders, -⟩ :=
    entryPoints_agree "?--\n'it''s" ⟨true, "info"⟩ files
  exact ⟨hfile, (htokenize none (some "q.sql") false true hfile).trans hverdict,
    hplaceholders.trans hverdict⟩

end SqlTokens
