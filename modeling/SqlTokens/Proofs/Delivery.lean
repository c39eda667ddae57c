import SqlTokens.Proofs.PlaceholderLines

/-! # Which failure wins

    A statement may be refused, and what is written about it may be refused too.  The tokens
    of a statement are written when all of it was read, so that its own error comes first and
    nothing stands before it.  The placeholders are written while it is read, so that a sink
    may be the first to fail.

    * **Delivery**: `Plan.deliver_lines` — a sink that takes nothing fails with the first line.
    * **Tokens**: `planTokens_of_malformed`, `planTokens_eq_ofParts` — all of the listing or
      nothing.
    * **Outcomes**: `execute_placeholders_refusing` and `execute_refusing`. -/

namespace SqlTokens

open Utf8 (ofString)

/-! ## Delivery -/

/-- A sink that takes nothing fails with the first line, if there is one. -/
theorem Plan.deliver_lines {α : Type} (xs : List α) (line : α → String)
    (outcome : Except Error Unit) :
    (Plan.mk (xs.map fun x => .line (line x)) outcome).deliver .refusing =
      ("", if xs = [] then outcome else .error (.io .sinkClosed)) := by
  cases xs with
  | nil => rfl
  | cons x xs => rfl

/-! ## Tokens -/

/-- The tokens that a listing shows: the end of the input is none of them. -/
def listedTokens (input : Bytes) (shown : Bool) : List Scanned :=
  (scanned input).filter fun x => x.isShown shown && !x.token.isEnd

theorem listedTokens_eq_nil_iff {input : Bytes} {shown : Bool} :
    listedTokens input shown = [] ↔
      ¬ ∃ x ∈ scanned input, x.isShown shown = true ∧ x.token.isEnd = false := by
  simp [listedTokens, List.filter_eq_nil_iff]

/-- A statement with a malformed token is refused before anything is written. -/
theorem planTokens_of_malformed {sql : String}
    (h : ∃ x ∈ scanned (ofString sql), x.token.isMalformed = true) (shown json : Bool) :
    ∃ message, planTokens sql shown json = .failed (.sqlParsing message) := by
  obtain ⟨message, herror⟩ := exists_syntaxError? h
  have hverdict := Lexer.failure?_tokenize (ofString sql) shown
  rw [herror] at hverdict
  refine ⟨message, ?_⟩
  rw [planTokens]
  cases htokenize : ((Lexer.start (ofString sql)).showComments shown).tokenize with
  | ok tokens =>
    rw [htokenize] at hverdict
    cases hverdict
  | error e =>
    rw [htokenize] at hverdict
    rw [Option.some.inj hverdict]

/-- A statement without one is listed as a whole. -/
theorem planTokens_eq_ofParts {sql : String}
    (h : ∀ x ∈ scanned (ofString sql), x.token.isMalformed = false) (shown json : Bool) :
    planTokens sql shown json =
      .ofParts (listTokens ((listedTokens (ofString sql) shown).map Scanned.token) json) := by
  have hfilter : (((scanned (ofString sql)).filter (Scanned.isShown shown)).map
      Scanned.token).filter (fun t => !t.isEnd) =
        (listedTokens (ofString sql) shown).map Scanned.token := by
    rw [List.filter_map, List.filter_filter, listedTokens]
    simp only [Function.comp_def, Bool.and_comm]
  rw [planTokens, Lexer.tokenize_of_wellFormed h]
  exact congrArg (fun tokens => Plan.ofParts (listTokens tokens json)) hfilter

/-! ## Outcomes -/

section
variable {sql : String} {given file : Option String} {files : Files}
  (hsql : statementText files given file = .ok sql) (config : Config) (allowComments : Bool)
  (h : ∀ x ∈ scanned (ofString sql), x.token.isMalformed = false)
include hsql h

/-- A document is never empty, so it is refused. -/
theorem execute_tokenize_document_refusing :
    (Command.tokenize given file allowComments true).execute config files .refusing =
      ("", .error (.serialization .sinkClosed)) := by
  rw [execute_tokenize hsql, planTokens_eq_ofParts h]
  rfl

/-- A listing in lines is refused if it has any. -/
theorem execute_tokenize_lines_refusing :
    (Command.tokenize given file allowComments false).execute config files .refusing =
      ("", if listedTokens (ofString sql) (allowComments || config.allowComments) = [] then .ok ()
        else .error (.io .sinkClosed)) := by
  have hparts : ∀ xs : List Scanned, Plan.ofParts (listTokens (xs.map Scanned.token) false) =
      ⟨xs.map fun x => .line x.token.listing, .ok ()⟩ := by
    intro xs
    show Plan.mk ((xs.map Scanned.token).map _) _ = _
    rw [List.map_map]
    rfl
  rw [execute_tokenize hsql, planTokens_eq_ofParts h, hparts, Plan.deliver_lines]

end

/-- A list of placeholders is refused with its first line; if it has none, the statement
    decides. -/
theorem execute_placeholders_refusing (sql : String) (config : Config) (files : Files) :
    (Command.placeholders sql).execute config files .refusing =
      ("", if listedPlaceholders (ofString sql) = [] then
          (syntaxError? (ofString sql)).elim (.ok ()) .error
        else .error (.io .sinkClosed)) := by
  show (planPlaceholders sql).deliver .refusing = _
  rw [planPlaceholders_eq, rowsOf, List.map_map]
  exact Plan.deliver_lines _ (fun x : Scanned => (x.row (ofString sql)).line) _

/-- **Outcomes**: the tokens of a statement with a malformed token are refused with its own
    error, in lines or as a document, and nothing is written whatever the sink is.  Let the
    sink take nothing.  Without a malformed token, a document is always refused, and lines
    are refused exactly if a token is shown.  A list of placeholders is refused if a
    placeholder comes before the first malformed token; if none does, the statement is
    refused if it has a malformed token, and else the command succeeds. -/
theorem execute_refusing (sql : String) (config : Config) (files : Files) :
    ((∃ x ∈ scanned (ofString sql), x.token.isMalformed = true) →
      ∀ given file allowComments json sink, statementText files given file = .ok sql →
        ∃ message, (Command.tokenize given file allowComments json).execute config files sink =
          ("", .error (.sqlParsing message))) ∧
    ((∀ x ∈ scanned (ofString sql), x.token.isMalformed = false) →
      ∀ given file allowComments, statementText files given file = .ok sql →
        (∃ fault, (Command.tokenize given file allowComments true).execute config files
          .refusing = ("", .error (.serialization fault))) ∧
        ((∃ fault, (Command.tokenize given file allowComments false).execute config files
            .refusing = ("", .error (.io fault))) ↔
          ∃ x ∈ scanned (ofString sql),
            x.isShown (allowComments || config.allowComments) = true ∧ x.token.isEnd = false) ∧
        ((Command.tokenize given file allowComments false).execute config files .refusing =
            ("", .ok ()) ↔
          ¬ ∃ x ∈ scanned (ofString sql),
            x.isShown (allowComments || config.allowComments) = true ∧ x.token.isEnd = false)) ∧
    ((∃ fault, (Command.placeholders sql).execute config files .refusing =
        ("", .error (.io fault))) ↔
      listedPlaceholders (ofString sql) ≠ []) ∧
    ((∃ message, (Command.placeholders sql).execute config files .refusing =
        ("", .error (.sqlParsing message))) ↔
      listedPlaceholders (ofString sql) = [] ∧
        ∃ x ∈ scanned (ofString sql), x.token.isMalformed = true) ∧
    ((Command.placeholders sql).execute config files .refusing = ("", .ok ()) ↔
      listedPlaceholders (ofString sql) = [] ∧
        ¬ ∃ x ∈ scanned (ofString sql), x.token.isMalformed = true) := by
  refine ⟨?_, ?_, ?_⟩
  · intro hmalformed given file allowComments json sink hsql
    obtain ⟨message, hplan⟩ :=
      planTokens_of_malformed hmalformed (allowComments || config.allowComments) json
    refine ⟨message, ?_⟩
    rw [execute_tokenize hsql, hplan, Plan.deliver_failed]
  · intro hwell given file allowComments hsql
    have hdocument := execute_tokenize_document_refusing hsql config allowComments hwell
    refine ⟨⟨_, hdocument⟩, ?_⟩
    rw [execute_tokenize_lines_refusing hsql config allowComments hwell]
    by_cases hlisted : listedTokens (ofString sql) (allowComments || config.allowComments) = []
    · have hnone := listedTokens_eq_nil_iff.1 hlisted
      rw [if_pos hlisted]
      refine ⟨iff_of_false ?_ hnone, iff_of_true rfl hnone⟩
      rintro ⟨fault, hfault⟩
      cases hfault
    · have hsome := not_not.1 (mt listedTokens_eq_nil_iff.2 hlisted)
      rw [if_neg hlisted]
      refine ⟨iff_of_true ⟨_, rfl⟩ hsome, iff_of_false ?_ (not_not.2 hsome)⟩
      intro hok
      cases hok
  · rw [execute_placeholders_refusing]
    by_cases hlisted : listedPlaceholders (ofString sql) = []
    · rw [if_pos hlisted]
      by_cases hmalformed : ∃ x ∈ scanned (ofString sql), x.token.isMalformed = true
      · obtain ⟨message, herror⟩ := exists_syntaxError? hmalformed
        simp [hlisted, herror, hmalformed]
      · have herror : syntaxError? (ofString sql) = none :=
          syntaxError?_of_wellFormed (by simpa using hmalformed)
        simp [hlisted, herror, hmalformed]
    · rw [if_neg hlisted]
      simp [hlisted]

/-- The three outcomes of each command: a comment is a token only where it is shown, and a
    `?` is written before the literal without its end is read. -/
theorem execute_refusing_mixed :
    let files : Files := fun path => if path = "q.sql" then some (ofString "/*?*/") else none
    statementText files none (some "q.sql") = .ok "/*?*/" ∧
    ((Command.tokenize none (some "q.sql") false false).execute .standard files .refusing =
      ("", .ok ())) ∧
    (∃ fault, (Command.tokenize none (some "q.sql") true false).execute .standard files
      .refusing = ("", .error (.io fault))) ∧
    (∃ fault, (Command.tokenize none (some "q.sql") false true).execute .standard files
      .refusing = ("", .error (.serialization fault))) ∧
    (∃ message, (Command.tokenize (some "?'") none false true).execute .standard files
      .refusing = ("", .error (.sqlParsing message))) ∧
    (∃ fault, (Command.placeholders "?'").execute .standard files .refusing =
      ("", .error (.io fault))) ∧
    (∃ message, (Command.placeholders "'?").execute .standard files .refusing =
      ("", .error (.sqlParsing message))) ∧
    (Command.placeholders "/*?*/").execute .standard files .refusing = ("", .ok ()) := by
  intro files
  have hfile : statementText files none (some "q.sql") = .ok "/*?*/" := by
    rw [statementText, show files "q.sql" = some (ofString "/*?*/") from if_pos rfl,
      readText_ofString]
    rfl
  have hwell : ∀ x ∈ scanned (ofString "/*?*/"), x.token.isMalformed = false := by
    decide +kernel
  have hlater : ∃ x ∈ scanned (ofString "?'"), x.token.isMalformed = true := by decide +kernel
  have hfirst : ∃ x ∈ scanned (ofString "'?"), x.token.isMalformed = true := by decide +kernel
  obtain ⟨-, htokens, -, -, hnone⟩ := execute_refusing "/*?*/" .standard files
  obtain ⟨herror, -, hline, -, -⟩ := execute_refusing "?'" .standard files
  obtain ⟨-, -, -, hrefused, -⟩ := execute_refusing "'?" .standard files
  obtain ⟨hdocument, -, hhidden⟩ := htokens hwell none (some "q.sql") false hfile
  obtain ⟨-, hshown, -⟩ := htokens hwell none (some "q.sql") true hfile
  refine ⟨hfile, hhidden.2 (by decide +kernel), hshown.2 (by decide +kernel), hdocument,
    herror hlater (some "?'") none false true .refusing rfl, hline.2 (by decide +kernel),
    hrefused.2 ⟨by decide +kernel, hfirst⟩, hnone.2 ⟨by decide +kernel, ?_⟩⟩
  decide +kernel

end SqlTokens
