import Mathlib.Data.List.TakeWhile
import SqlTokens.Proofs.Counting
import SqlTokens.Proofs.EntryPoints
import SqlTokens.Proofs.Lines
import SqlTokens.Proofs.ReadBack

/-! # The list of placeholders

    The placeholders of a statement are listed line by line: a `?` under its number, and a
    placeholder with a name of its own under a dash.  Which of them is a `?` is found out
    from the count of the lexer before and after a pull that may have passed over comments;
    what has to be listed is said of the sources.

    * **What has to be listed**: `Row` and `IsListing`.
    * **One pull**: `IsListing.row` and `placeholderLine?_eq` — the count tells a `?` from
      any other.
    * **All pulls**: `lines_of_pulls` and `isListing_tokensFrom`, by induction on the tokens.
    * **Lines**: `Row.filter_isControl` — a name has nothing that could be taken for a tab
      or the end of a line.
    * **The whole list**: `planPlaceholders_eq` and `execute_placeholders`. -/

namespace SqlTokens

open Utf8 (ofString)

/-! ## What has to be listed -/

/-- A line about a placeholder: its number, if it is a `?`, and its name. -/
structure Row where
  number : Option Nat
  name : String
  deriving DecidableEq

/-- A row as it is written, without its end. -/
def Row.line (row : Row) : String :=
  row.number.elim "-" toString ++ "\t" ++ row.name

/-- The row of a placeholder. -/
def Scanned.row (input : Bytes) (x : Scanned) : Row :=
  ⟨if x.isQuestion input then some x.ordinals else none, x.token.text⟩

/-- The placeholders before the first malformed token, or all if there is none. -/
def listedPlaceholders (input : Bytes) : List Scanned :=
  ((scanned input).takeWhile fun x => !x.token.isMalformed).filter
    fun x => x.token.kind == .placeholder

/-- The rows of an input. -/
def rowsOf (input : Bytes) : List Row :=
  (listedPlaceholders input).map (Scanned.row input)

/-- **What has to be listed**: one row for each placeholder, in order, if `n` times a `?`
    came before. -/
inductive IsListing (input : Bytes) : Nat → List Scanned → List Row → Prop
  | nil (n : Nat) : IsListing input n [] []
  /-- A `?` has the next number, and the name that is made from it. -/
  | question {n : Nat} {x : Scanned} {xs : List Scanned} {rows : List Row}
      (hsource : x.source input = [Byte.question]) (hmore : IsListing input (n + 1) xs rows) :
      IsListing input n (x :: xs) (⟨some (n + 1), ":v" ++ toString (n + 1)⟩ :: rows)
  /-- Any other has no number, and the name that it is written with. -/
  | named {n : Nat} {x : Scanned} {name : String} {xs : List Scanned} {rows : List Row}
      (hsource : x.source input = ofString (":" ++ name)) (hmore : IsListing input n xs rows) :
      IsListing input n (x :: xs) (⟨none, ":" ++ name⟩ :: rows)

theorem mem_placeholdersOf_of_listed {input : Bytes} {x : Scanned}
    (hx : x ∈ listedPlaceholders input) : x ∈ placeholdersOf input :=
  ((List.takeWhile_sublist _).filter _).subset hx

/-- Without a malformed token, all placeholders are listed. -/
theorem listedPlaceholders_of_wellFormed {input : Bytes}
    (h : ∀ x ∈ scanned input, x.token.isMalformed = false) :
    listedPlaceholders input = placeholdersOf input := by
  have hall : (scanned input).takeWhile (fun x => !x.token.isMalformed) = scanned input := by
    rw [List.takeWhile_eq_self_iff]
    intro x hx
    rw [h x hx]
    rfl
  rw [listedPlaceholders, hall, placeholdersOf]

/-! ## Names -/

theorem text_of_isQuestion {input : Bytes} {x : Scanned} (hx : x ∈ scanned input)
    (hq : x.isQuestion input = true) : x.token.text = ":v" ++ toString x.ordinals := by
  have hsource : x.source input = [Byte.question] := beq_iff_eq.1 hq
  rcases spells_of_mem_scanned hx with ⟨-, hnone⟩ | ⟨content, -, hvalue, hordinal⟩
  · rw [hsource] at hnone
    cases hnone
  · rw [hordinal.2 hsource] at hvalue
    rw [Token.text, Token.bytes, hvalue]
    exact Utf8.toStringLossy_ofString _

/-- What is no `?` has the name that it is written with. -/
theorem source_of_placeholder {input : Bytes} {x : Scanned} (hx : x ∈ placeholdersOf input)
    (hq : x.isQuestion input = false) :
    x.source input = ofString x.token.text ∧ IsNamed (x.source input) := by
  have htext := value_of_placeholder hx
  obtain ⟨hmem, hkind⟩ := List.mem_filter.1 hx
  rw [beq_iff_eq] at hkind
  rcases spells_of_mem_scanned hmem with ⟨hend, -⟩ | ⟨content, hspells, hvalue, -⟩
  · cases hkind.symm.trans hend
  · rw [hkind] at hspells
    rcases hspells with ⟨rfl, hnamed⟩ | ⟨hsource, -⟩
    · exact ⟨Option.some.inj (hvalue.symm.trans htext), hnamed⟩
    · rw [Scanned.isQuestion, hsource] at hq
      cases hq

theorem isNamed_text {input : Bytes} {x : Scanned} (hx : x ∈ placeholdersOf input) :
    IsNamed (ofString x.token.text) := by
  cases hq : x.isQuestion input with
  | true =>
    rw [text_of_isQuestion (List.mem_filter.1 hx).1 hq]
    exact isNamed_ordinalName x.ordinals
  | false =>
    obtain ⟨hsource, hnamed⟩ := source_of_placeholder hx hq
    rwa [hsource] at hnamed

/-- A text that is written like a name is a colon and the rest of the text. -/
theorem exists_name_of_isNamed {text : String} (h : IsNamed (ofString text)) :
    ∃ name, text = ":" ++ name := by
  obtain ⟨name, htext, -, hname⟩ := h
  have hascii := Utf8.ofString_toStringLossy fun b hb => Byte.lt_of_isNameByte (hname b hb)
  refine ⟨Utf8.toStringLossy name, Utf8.ofString_injective ?_⟩
  rw [htext, Utf8.ofString_append, hascii]
  rfl

/-! ## One pull -/

/-- **One row**: the row of a placeholder is what has to be listed of it, if its number says
    how often a `?` came before. -/
theorem IsListing.row {input : Bytes} {n : Nat} {x : Scanned} {xs : List Scanned}
    {rows : List Row} (hx : x ∈ placeholdersOf input)
    (hcount : x.ordinals = n + if x.isQuestion input then 1 else 0)
    (hmore : IsListing input x.ordinals xs rows) :
    IsListing input n (x :: xs) (x.row input :: rows) := by
  rw [Scanned.row]
  cases hq : x.isQuestion input with
  | true =>
    rw [hq, if_pos rfl] at hcount
    rw [hcount] at hmore
    rw [if_pos rfl, text_of_isQuestion (List.mem_filter.1 hx).1 hq, hcount]
    exact .question (beq_iff_eq.1 hq) hmore
  | false =>
    obtain ⟨name, hname⟩ := exists_name_of_isNamed (isNamed_text hx)
    have hsource := (source_of_placeholder hx hq).1
    rw [hname] at hsource
    rw [hq, if_neg Bool.false_ne_true, Nat.add_zero] at hcount
    rw [hcount] at hmore
    rw [if_neg Bool.false_ne_true, hname]
    exact .named hsource hmore

theorem Scanned.isQuestion_of_kind_ne {input : Bytes} {x : Scanned} (hx : x ∈ scanned input)
    (hkind : x.token.kind ≠ .placeholder) : x.isQuestion input = false := by
  apply Bool.eq_false_iff.2
  intro hq
  exact hkind ((isQuestion_iff hx).1 hq).1

/-- Whatever is no `?` leaves the count as it is. -/
theorem ordinals_scans_succ {input : Bytes} {i : Nat}
    (hq : (tokenAt input i).isQuestion input = false) :
    ((Lexer.start input).scans (i + 1)).ordinals = ((Lexer.start input).scans i).ordinals := by
  have hcount := ordinals_tokenAt input i
  rw [hq] at hcount
  exact hcount

/-- **One pull**: a pull is listed if it is a placeholder, in the row that its source
    demands. -/
theorem placeholderLine?_eq {input : Bytes} {i : Nat} {pull : Lexer.Pull}
    (h : Scanned.ofPull pull = tokenAt input i) :
    placeholderLine? ((Lexer.start input).scans i).ordinals pull =
      if (tokenAt input i).token.kind == .placeholder then
        some ((tokenAt input i).row input).line
      else none := by
  obtain ⟨token, after⟩ := pull
  have htoken : token = (tokenAt input i).token := congrArg Scanned.token h
  have hafter : after.ordinals = (tokenAt input i).ordinals := congrArg Scanned.ordinals h
  have hcount := ordinals_tokenAt input i
  unfold placeholderLine?
  dsimp only
  rw [htoken, hafter]
  cases hkind : (tokenAt input i).token.kind == .placeholder with
  | false => simp [bne, hkind]
  | true =>
    cases hq : (tokenAt input i).isQuestion input with
    | true =>
      have hlt : ((Lexer.start input).scans i).ordinals < (tokenAt input i).ordinals := by
        rw [hcount, hq]
        exact Nat.lt_succ_self _
      simp [bne, hkind, hlt, Scanned.row, Row.line, hq]
    | false =>
      have hge : ¬ ((Lexer.start input).scans i).ordinals < (tokenAt input i).ordinals := by
        rw [hcount, hq]
        exact Nat.lt_irrefl _
      have hdash : "-\t" = "-" ++ "\t" := by decide
      simp [bne, hkind, hge, Scanned.row, Row.line, hq, hdash]

/-! ## All pulls -/

section
variable {input : Bytes}

/-- The lines of some pulls are those of the placeholders among the tokens that were
    passed, whatever comments were passed over. -/
theorem lines_of_pulls {i m : Nat} {pulls : List Lexer.Pull}
    (h : pulls.map Scanned.ofPull = (tokensFrom input i m).filter (Scanned.isShown false)) :
    ((((Lexer.start input).scans i).ordinals :: pulls.map fun pull => pull.2.ordinals).zipWith
        placeholderLine? pulls).filterMap id =
      ((tokensFrom input i m).filter fun x => x.token.kind == .placeholder).map
        fun x => (x.row input).line := by
  -- By induction on the tokens; a comment is passed over with the next token.
  induction m generalizing i pulls with
  | zero =>
    obtain rfl : pulls = [] := List.map_eq_nil_iff.1 h
    rfl
  | succ m ih =>
    rw [tokensFrom_succ] at h ⊢
    cases hshown : (tokenAt input i).isShown false with
    | true =>
      rw [List.filter_cons_of_pos hshown] at h
      cases pulls with
      | nil => cases h
      | cons pull pulls =>
        rw [List.map_cons, List.cons.injEq] at h
        obtain ⟨hpull, hpulls⟩ := h
        have hcount : pull.2.ordinals = ((Lexer.start input).scans (i + 1)).ordinals :=
          congrArg Scanned.ordinals hpull
        have hmore := ih hpulls
        rw [List.map_cons, List.zipWith_cons_cons, placeholderLine?_eq hpull, hcount]
        cases hkind : (tokenAt input i).token.kind == .placeholder with
        | true =>
          rw [if_pos rfl, List.filter_cons, if_pos hkind, List.map_cons, ← hmore]
          rfl
        | false =>
          rw [if_neg Bool.false_ne_true, List.filterMap_cons_none rfl, List.filter_cons, hkind,
            if_neg Bool.false_ne_true, hmore]
    | false =>
      have hcomment : (tokenAt input i).token.kind = .comment := by
        simpa [Scanned.isShown] using hshown
      have hkind : (tokenAt input i).token.kind ≠ .placeholder := by
        rw [hcomment]
        decide
      have hsame := ordinals_scans_succ
        (Scanned.isQuestion_of_kind_ne (tokenAt_mem_scanned input i) hkind)
      rw [List.filter_cons, hshown, if_neg Bool.false_ne_true] at h
      rw [List.filter_cons, beq_false_of_ne hkind, if_neg Bool.false_ne_true, ← hsame]
      exact ih h

/-- The rows of the placeholders that were passed are what has to be listed of them. -/
theorem isListing_tokensFrom (i m : Nat) :
    IsListing input ((Lexer.start input).scans i).ordinals
      ((tokensFrom input i m).filter fun x => x.token.kind == .placeholder)
      (((tokensFrom input i m).filter fun x => x.token.kind == .placeholder).map
        (Scanned.row input)) := by
  -- By induction on the tokens; the count is passed on from each of them to the next.
  induction m generalizing i with
  | zero => exact .nil _
  | succ m ih =>
    have hmem := tokenAt_mem_scanned input i
    have hcount := ordinals_tokenAt input i
    have hmore := ih (i + 1)
    rw [tokensFrom_succ]
    cases hkind : (tokenAt input i).token.kind == .placeholder with
    | false =>
      have hq := Scanned.isQuestion_of_kind_ne hmem (beq_eq_false_iff_ne.1 hkind)
      rw [ordinals_scans_succ hq] at hmore
      rw [List.filter_cons, hkind, if_neg Bool.false_ne_true]
      exact hmore
    | true =>
      rw [List.filter_cons, if_pos hkind, List.map_cons]
      exact IsListing.row (List.mem_filter.2 ⟨hmem, hkind⟩) hcount hmore

/-- What a consumer stops at does not matter, if it is filtered out. -/
theorem filter_throughFirst {stops : Token → Bool} {p : Scanned → Bool}
    (h : ∀ x : Scanned, stops x.token = true → p x = false) (xs : List Scanned) :
    (throughFirst stops xs).filter p = (xs.takeWhile fun x => !stops x.token).filter p := by
  induction xs with
  | nil => rfl
  | cons x xs ih =>
    cases hx : stops x.token with
    | true =>
      rw [throughFirst, if_pos hx, List.takeWhile_cons, hx, List.filter_singleton, h x hx]
      rfl
    | false =>
      rw [throughFirst, hx, if_neg Bool.false_ne_true, List.takeWhile_cons, hx,
        List.filter_cons, ih, Bool.not_false, if_pos rfl, List.filter_cons]

/-- What is malformed is no placeholder. -/
theorem kind_ne_placeholder_of_isMalformed (x : Scanned) (h : x.token.isMalformed = true) :
    (x.token.kind == .placeholder) = false := by
  rw [Token.isMalformed_iff.1 h]
  rfl

/-- The placeholders that are listed are those among the tokens before the last one that is
    read. -/
theorem exists_listedPlaceholders_eq (input : Bytes) :
    ∃ k, listedPlaceholders input =
        (tokensFrom input 0 k).filter (fun x => x.token.kind == .placeholder) ∧
      (Lexer.start input).readStatement.before.map Scanned.ofPull =
        (tokensFrom input 0 k).filter (Scanned.isShown false) := by
  obtain ⟨k, hk⟩ := exists_isLeast_tokenAt input 0 fun _ => Scanned.endsReading_of_isEnd
  have hends : (tokenAt input k).endsReading = true := hk.1.2
  have hthrough : throughMalformed (scanned input) = tokensFrom input 0 k ++ [tokenAt input k] :=
    (Lexer.isAt_start input false).throughMalformed_stream hk
  refine ⟨k, ?_, ?_⟩
  · -- The last token is malformed or the end, so it is no placeholder.
    have hkind : ((tokenAt input k).token.kind == .placeholder) = false := by
      apply beq_false_of_ne
      intro hkind
      simp [Scanned.endsReading, Token.isEnd, Token.isMalformed, hkind] at hends
    rw [listedPlaceholders, ← filter_throughFirst kind_ne_placeholder_of_isMalformed,
      ← throughMalformed, hthrough, List.filter_append, List.filter_singleton, hkind, cond_false,
      List.append_nil]
  · have hstream : throughMalformed (Lexer.start input).stream =
        tokensFrom input 0 k ++ [tokenAt input k] := hthrough
    exact (Lexer.map_ofPull_before hstream hends).1

end

/-! ## Bytes of a line -/

/-- A control byte of ASCII. -/
def Byte.isControl (b : UInt8) : Bool :=
  b < 0x20 || b == 0x7f

theorem Byte.isControl_of_isNameByte {b : UInt8} (h : isNameByte b = true) :
    isControl b = false := by
  simp only [isNameByte, isWordByte, isLetter, isDigit] at h
  grind [isControl, UInt8.le_iff_toNat_le, UInt8.lt_iff_toNat_lt]

theorem filter_isControl_eq_nil {bytes : Bytes} (h : ∀ b ∈ bytes, Byte.isNameByte b = true) :
    bytes.filter Byte.isControl = [] := by
  rw [List.filter_eq_nil_iff]
  intro b hb
  rw [Byte.isControl_of_isNameByte (h b hb)]
  exact Bool.false_ne_true

/-- A line has one tab, and no other control byte. -/
theorem Row.filter_isControl {row : Row} (h : IsNamed (ofString row.name)) :
    (ofString row.line).filter Byte.isControl = [0x09] := by
  have hnumber : (ofString (row.number.elim "-" toString)).filter Byte.isControl = [] := by
    cases row.number with
    | none => decide
    | some n =>
      apply filter_isControl_eq_nil
      intro b hb
      rw [Byte.isNameByte, Byte.isWordByte, Byte.isDigit_of_mem_toString hb, Bool.or_true,
        Bool.true_or]
  have hname : (ofString row.name).filter Byte.isControl = [] := by
    obtain ⟨name, htext, -, hbytes⟩ := h
    rw [htext, List.filter_cons_of_neg (by decide)]
    exact filter_isControl_eq_nil hbytes
  rw [Row.line, Utf8.ofString_append, Utf8.ofString_append, List.filter_append,
    List.filter_append, hnumber, hname, List.append_nil]
  rfl

/-- So no line is broken. -/
theorem Row.newline_not_mem_line {row : Row} (h : IsNamed (ofString row.name)) :
    '\n' ∉ row.line.toList := by
  intro hmem
  have hbyte : Byte.newline ∈ ofString row.line :=
    List.mem_flatMap.2 ⟨'\n', hmem, by decide⟩
  have hcontrol := List.mem_filter.2 ⟨hbyte, (by decide : Byte.isControl Byte.newline = true)⟩
  rw [Row.filter_isControl h] at hcontrol
  exact absurd hcontrol (by decide)

/-! ## The whole list -/

theorem isNamed_of_mem_rowsOf {input : Bytes} {row : Row} (h : row ∈ rowsOf input) :
    IsNamed (ofString row.name) := by
  obtain ⟨x, hx, rfl⟩ := List.mem_map.1 h
  exact isNamed_text (mem_placeholdersOf_of_listed hx)

theorem isListing_rowsOf (input : Bytes) :
    IsListing input 0 (listedPlaceholders input) (rowsOf input) := by
  obtain ⟨k, hlisted, -⟩ := exists_listedPlaceholders_eq input
  rw [rowsOf, hlisted]
  exact isListing_tokensFrom 0 k

/-- What is written of a statement: its rows, and then the outcome that all of the statement
    has. -/
theorem planPlaceholders_eq (sql : String) :
    planPlaceholders sql =
      ⟨(rowsOf (ofString sql)).map fun row => .line row.line,
        (syntaxError? (ofString sql)).elim (.ok ()) .error⟩ := by
  obtain ⟨k, hlisted, hbefore⟩ := exists_listedPlaceholders_eq (ofString sql)
  have herror : (Lexer.start (ofString sql)).readStatement.error? = syntaxError? (ofString sql) :=
    Lexer.error?_readStatement (ofString sql) false
  have hlines := lines_of_pulls hbefore
  have hstart : ((Lexer.start (ofString sql)).scans 0).ordinals =
      (Lexer.start (ofString sql)).ordinals := rfl
  rw [hstart, ← hlisted] at hlines
  unfold planPlaceholders Lexer.placeholderPlan
  dsimp only
  rw [hlines, herror, List.map_map, rowsOf, List.map_map]
  cases syntaxError? (ofString sql) with
  | none => rfl
  | some e => rfl

/-- The `?` are some of the placeholders. -/
theorem questionsOf_eq_filter_isQuestion (input : Bytes) :
    questionsOf input = (placeholdersOf input).filter (Scanned.isQuestion input) := by
  rw [questionsOf, placeholdersOf, List.filter_filter]
  apply List.filter_congr
  intro x hx
  cases hq : x.isQuestion input with
  | false => rfl
  | true => rw [((isQuestion_iff hx).1 hq).1]; rfl

section
variable {input : Bytes} (h : ∀ x ∈ scanned input, x.token.isMalformed = false)
include h

/-- The numbers of the rows are those from one on. -/
theorem numbers_of_rowsOf :
    (rowsOf input).filterMap Row.number = List.range' 1 (questionsOf input).length := by
  have hnumbers := congrArg (List.map Prod.snd) (questions_numbered input).1
  rw [List.map_map, List.map_map] at hnumbers
  calc (rowsOf input).filterMap Row.number
      = (placeholdersOf input).filterMap
          (fun x => if x.isQuestion input then some x.ordinals else none) := by
        rw [rowsOf, listedPlaceholders_of_wellFormed h, List.filterMap_map]
        rfl
    _ = (questionsOf input).filterMap (some ∘ Scanned.ordinals) := by
        rw [questionsOf_eq_filter_isQuestion, List.filterMap_filter]
        rfl
    _ = (questionsOf input).map Scanned.ordinals := by rw [List.filterMap_eq_map]
    _ = (List.range' 1 (questionsOf input).length).map id := hnumbers
    _ = _ := List.map_id _

/-- The rows with a number have the names that are made for the `?`. -/
theorem names_of_numbered_rowsOf :
    ((rowsOf input).filter fun row => row.number.isSome).map Row.name =
      ordinalTexts (questionsOf input).length := by
  have hnumbered : ∀ x : Scanned, (x.row input).number.isSome = x.isQuestion input := by
    intro x
    rw [Scanned.row]
    cases x.isQuestion input <;> rfl
  rw [rowsOf, listedPlaceholders_of_wellFormed h, List.filter_map, List.map_map,
    ← texts_of_questions, questionsOf_eq_filter_isQuestion]
  simp only [Function.comp_def, hnumbered]
  rfl

end

/-- **The whole list**: for each placeholder before the first malformed token there is one
    line, in order: its number and the name made from it if it is a `?`, or else a dash and
    the name that it is written with.  A line has one tab, and no other control byte.  If
    there is a malformed token, the command fails after these lines.  If there is none, it
    succeeds; then the numbers are those from one on, their names are the names that are
    made for the `?` of the statement, and all names are those of its placeholders. -/
theorem execute_placeholders (sql : String) (config : Config) (files : Files) :
    ∃ out outcome,
      (Command.placeholders sql).execute config files .accepting = (out, outcome) ∧
      out = String.join ((rowsOf (ofString sql)).map fun row => row.line ++ "\n") ∧
      lines out = (rowsOf (ofString sql)).map Row.line ∧
      IsListing (ofString sql) 0 (listedPlaceholders (ofString sql)) (rowsOf (ofString sql)) ∧
      (∀ row ∈ rowsOf (ofString sql), (ofString row.line).filter Byte.isControl = [0x09]) ∧
      ((∃ x ∈ scanned (ofString sql), x.token.isMalformed = true) →
        ∃ message, outcome = .error (.sqlParsing message)) ∧
      ((∀ x ∈ scanned (ofString sql), x.token.isMalformed = false) →
        outcome = .ok () ∧
        ∃ names, Lexer.ordinalNames sql = .ok names ∧
          (rowsOf (ofString sql)).filterMap Row.number = List.range' 1 names.length ∧
          ((rowsOf (ofString sql)).filter fun row => row.number.isSome).map Row.name = names ∧
          Lexer.placeholderNames sql = .ok ((rowsOf (ofString sql)).map Row.name)) := by
  have hlines : ∀ line ∈ (rowsOf (ofString sql)).map Row.line, '\n' ∉ line.toList := by
    intro line hline
    obtain ⟨row, hrow, rfl⟩ := List.mem_map.1 hline
    exact Row.newline_not_mem_line (isNamed_of_mem_rowsOf hrow)
  have hout : String.join ((rowsOf (ofString sql)).map fun row => row.line ++ "\n") =
      String.join (((rowsOf (ofString sql)).map Row.line).map fun line => line ++ "\n") := by
    rw [List.map_map]
    rfl
  refine ⟨_, (syntaxError? (ofString sql)).elim (.ok ()) .error, ?_, rfl, ?_,
    isListing_rowsOf (ofString sql), ?_, ?_, ?_⟩
  · show (planPlaceholders sql).deliver .accepting = _
    rw [planPlaceholders_eq]
    show (String.join (((rowsOf (ofString sql)).map _).map Part.text), _) = _
    rw [List.map_map]
    rfl
  · rw [hout, lines_join_of_not_mem hlines]
  · intro row hrow
    exact Row.filter_isControl (isNamed_of_mem_rowsOf hrow)
  · intro hmalformed
    obtain ⟨message, herror⟩ := exists_syntaxError? hmalformed
    exact ⟨message, by rw [herror, Option.elim_some]⟩
  · intro hwell
    have hverdict := syntaxError?_of_wellFormed hwell
    refine ⟨by rw [hverdict, Option.elim_none], _, ordinalNames_eq hwell, ?_,
      names_of_numbered_rowsOf hwell, ?_⟩
    · rw [numbers_of_rowsOf hwell, length_ordinalTexts]
    · rw [placeholderNames_eq hwell, rowsOf, listedPlaceholders_of_wellFormed hwell, List.map_map]
      rfl

/-- A `?` behind a comment has the name of a placeholder before it, and is told apart; and
    what stands before a literal without its end is listed. -/
theorem execute_placeholders_mixed :
    (∀ x ∈ scanned (ofString ":v1,/*?*/?,:a.b,?"), x.token.isMalformed = false) ∧
    (∃ out, (Command.placeholders ":v1,/*?*/?,:a.b,?").execute .standard (fun _ => none)
        .accepting = (out, .ok ()) ∧
      lines out = ["-\t:v1", "1\t:v1", "-\t:a.b", "2\t:v2"]) ∧
    ∃ out message, (Command.placeholders "?,:a'?").execute .standard (fun _ => none)
        .accepting = (out, .error (.sqlParsing message)) ∧
      lines out = ["1\t:v1", "-\t:a"] := by
  have hwell : ∀ x ∈ scanned (ofString ":v1,/*?*/?,:a.b,?"), x.token.isMalformed = false := by
    decide +kernel
  have hmalformed : ∃ x ∈ scanned (ofString "?,:a'?"), x.token.isMalformed = true := by
    decide +kernel
  have hrows : (rowsOf (ofString ":v1,/*?*/?,:a.b,?")).map Row.line =
      ["-\t:v1", "1\t:v1", "-\t:a.b", "2\t:v2"] := by
    decide +kernel
  have hrows' : (rowsOf (ofString "?,:a'?")).map Row.line = ["1\t:v1", "-\t:a"] := by
    decide +kernel
  obtain ⟨out, outcome, hexecute, -, hlines, -, -, -, hok⟩ :=
    execute_placeholders ":v1,/*?*/?,:a.b,?" .standard (fun _ => none)
  obtain ⟨out', outcome', hexecute', -, hlines', -, -, herror, -⟩ :=
    execute_placeholders "?,:a'?" .standard (fun _ => none)
  obtain ⟨message, rfl⟩ := herror hmalformed
  rw [(hok hwell).1] at hexecute
  exact ⟨hwell, ⟨out, hexecute, hlines.trans hrows⟩, out', message, hexecute',
    hlines'.trans hrows'⟩

end SqlTokens
