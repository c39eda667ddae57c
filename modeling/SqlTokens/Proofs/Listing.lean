import SqlTokens.Proofs.Json.Writing
import SqlTokens.Proofs.Rendering
import SqlTokens.Proofs.TextPreservation

/-! # Listings of a statement

    A statement without a malformed token is listed: each of its tokens, in order, but for
    the end of the input.

    * **Tokens**: `planTokens_of_wellFormed` — what is listed, whatever the form.
    * **Documents**: `execute_tokenize_json` — the entries of a JSON document are those
      tokens, and their texts are complete. -/

namespace SqlTokens

open Utf8 (ofString)

/-! ## Tokens -/

/-- No lexeme is the end of the input. -/
theorem Segment.isEnd_of_mem_layout {gs : List Segment} (h : ∀ g ∈ gs, g.IsSound) {p n : Nat}
    {x : Scanned} (hx : x ∈ layout p n gs) : x.token.isEnd = false := by
  induction gs generalizing p n with
  | nil => cases hx
  | cons g gs ih =>
    obtain ⟨hg, hgs⟩ := List.forall_mem_cons.1 h
    rcases List.mem_cons.1 hx with rfl | hx
    · have hkind : g.lexeme.kind ≠ .endOfInput := by
        intro hend
        have hspelled := hg.spelled
        rw [Lexeme.IsSpelled, hend] at hspelled
        exact hspelled
      exact beq_false_of_ne hkind
    · exact ih hgs hx

/-- A statement without a malformed token is tokenized into tokens of its stream, and the
    end behind them. -/
theorem Lexer.tokenize_eq_concat {input : Bytes}
    (h : ∀ x ∈ scanned input, x.token.isMalformed = false) (shown : Bool) :
    ∃ tokens stop, ((start input).showComments shown).tokenize =
        .ok (tokens ++ [⟨.endOfInput, none, stop⟩]) ∧
      ∀ t ∈ tokens, t.isEnd = false ∧ ∃ x ∈ scanned input, x.token = t := by
  obtain ⟨gs, hgs⟩ := exists_cuts input
  have hlayout := scanned_eq_layout hgs
  rw [Segment.stream] at hlayout
  have hending : ∀ p n, [Scanned.ending p n].filter (Scanned.isShown shown) =
      [Scanned.ending p n] := by
    intro p n
    exact List.filter_cons_of_pos (Scanned.isShown_of_endsReading rfl shown)
  refine ⟨((Segment.layout 1 0 gs).filter (Scanned.isShown shown)).map Scanned.token,
    1 + input.length, ?_, ?_⟩
  · rw [tokenize_of_wellFormed h, hlayout, List.filter_append, hending, List.map_append]
    rfl
  · intro t ht
    obtain ⟨x, hx, rfl⟩ := List.mem_map.1 ht
    have hmem := (List.mem_filter.1 hx).1
    refine ⟨Segment.isEnd_of_mem_layout hgs.isSound hmem, x, ?_, rfl⟩
    rw [hlayout]
    exact List.mem_append_left _ hmem

/-- What is listed of a statement without a malformed token. -/
theorem planTokens_of_wellFormed {sql : String}
    (h : ∀ x ∈ scanned (ofString sql), x.token.isMalformed = false) (shown json : Bool) :
    ∃ tokens stop, ((Lexer.start (ofString sql)).showComments shown).tokenize =
        .ok (tokens ++ [⟨.endOfInput, none, stop⟩]) ∧
      planTokens sql shown json = .ofParts (listTokens tokens json) ∧
      ∀ t ∈ tokens, ofString t.text = t.bytes := by
  obtain ⟨tokens, stop, htokenize, htokens⟩ := Lexer.tokenize_eq_concat h shown
  refine ⟨tokens, stop, htokenize, ?_, ?_⟩
  · have hproper : tokens.filter (fun t => !t.isEnd) = tokens := by
      apply List.filter_eq_self.2
      intro t ht
      rw [(htokens t ht).1]
      rfl
    have hend : [(⟨.endOfInput, none, stop⟩ : Token)].filter (fun t => !t.isEnd) = [] := rfl
    rw [planTokens, htokenize]
    show Plan.ofParts (listTokens ((tokens ++ [_]).filter fun t => !t.isEnd) json) = _
    rw [List.filter_append, hproper, hend, List.append_nil]
  · intro t ht
    obtain ⟨-, x, hx, rfl⟩ := htokens t ht
    exact ofString_text_of_mem_scanned hx (.inl (h x hx))

/-! ## Documents -/

/-- The entry of a token: its kind, its text and its position.  The text is null if the
    token has none, or else the string that is encoded as the bytes of the token. -/
def Token.IsEntry (t : Token) (entry : Json) : Prop :=
  ∃ text, entry = .object [("kind", .string t.kind.display), ("text", text),
      ("position", .number t.position)] ∧
    (t.value = none ∧ text = .null ∨ ∃ s, t.value = some (ofString s) ∧ text = .string s)

theorem Token.isEntry_toJson {t : Token} (h : ofString t.text = t.bytes) :
    t.IsEntry t.toJson := by
  obtain ⟨kind, value, position⟩ := t
  cases value with
  | none => exact ⟨.null, rfl, .inl ⟨rfl, rfl⟩⟩
  | some v => exact ⟨_, rfl, .inr ⟨_, congrArg some h.symm, rfl⟩⟩

/-- **Documents**: a statement without a malformed token is listed as one document and the
    end of its last line.  The document is read, in one way, as an array, whose entries are
    those of the tokens of the statement, in order, but for the end of the input. -/
theorem execute_tokenize_json {sql : String} {given file : Option String} {files : Files}
    (hsql : statementText files given file = .ok sql)
    (h : ∀ x ∈ scanned (ofString sql), x.token.isMalformed = false)
    (config : Config) (allowComments : Bool) :
    ∃ tokens stop document entries,
      ((Lexer.start (ofString sql)).showComments
        (allowComments || config.allowComments)).tokenize =
          .ok (tokens ++ [⟨.endOfInput, none, stop⟩]) ∧
      (Command.tokenize given file allowComments true).execute config files .accepting =
        (document ++ "\n", .ok ()) ∧
      Json.Reads document.toList (.value (.array entries)) [] ∧
      (∀ v, Json.IsDocument document v → v = .array entries) ∧
      List.Forall₂ Token.IsEntry tokens entries := by
  obtain ⟨tokens, stop, htokenize, hplan, htexts⟩ :=
    planTokens_of_wellFormed h (allowComments || config.allowComments) true
  obtain ⟨hreads, hunique⟩ := Json.isDocument_write (.array (tokens.map Token.toJson))
  refine ⟨tokens, stop, _, _, htokenize, ?_, hreads, hunique, ?_⟩
  · rw [Command.execute, Command.plan, hsql]
    show (planTokens sql (allowComments || config.allowComments) true).deliver .accepting = _
    rw [hplan]
    simp [Plan.ofParts, Plan.deliver, listTokens, Part.text, String.join]
  · rw [List.forall₂_map_right_iff, List.forall₂_same]
    intro t ht
    exact Token.isEntry_toJson (htexts t ht)

/-- A statement in a file, with a literal that has to be escaped and has characters outside
    ASCII, and with a comment that the settings show. -/
theorem execute_tokenize_json_escaped :
    let sql := "'\"\\\\é\\n',/*\t*/"
    let files : Files := fun _ => some (ofString sql)
    statementText files none (some "q.sql") = .ok sql ∧
    (∀ x ∈ scanned (ofString sql), x.token.isMalformed = false) ∧
    ∃ document entries,
      (Command.tokenize none (some "q.sql") false true).execute ⟨true, "info"⟩ files .accepting =
        (document ++ "\n", .ok ()) ∧
      (∀ v, Json.IsDocument document v → v = .array entries) ∧
      List.Forall₂ Token.IsEntry
        [⟨.string, some (ofString "\"\\é\n"), 1⟩, ⟨.operator .comma, none, 10⟩,
          ⟨.comment, some (ofString "/*\t*/"), 11⟩] entries := by
  intro sql files
  have hsql : statementText files none (some "q.sql") = .ok sql := by
    rw [statementText, readText_ofString]
    rfl
  have hwell : ∀ x ∈ scanned (ofString sql), x.token.isMalformed = false := by decide +kernel
  have htokens : ((scanned (ofString sql)).filter (Scanned.isShown true)).map Scanned.token =
      [⟨.string, some (ofString "\"\\é\n"), 1⟩, ⟨.operator .comma, none, 10⟩,
        ⟨.comment, some (ofString "/*\t*/"), 11⟩] ++ [⟨.endOfInput, none, 16⟩] := by
    decide +kernel
  obtain ⟨tokens, stop, document, entries, htokenize, hexecute, -, hunique, hentries⟩ :=
    execute_tokenize_json hsql hwell ⟨true, "info"⟩ false
  rw [Lexer.tokenize_of_wellFormed hwell] at htokenize
  obtain ⟨rfl, -⟩ := List.append_inj' (htokens.symm.trans (Except.ok.inj htokenize)) rfl
  exact ⟨hsql, hwell, document, entries, hexecute, hunique, hentries⟩

end SqlTokens
