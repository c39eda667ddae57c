import SqlTokens.Proofs.Listing
import SqlTokens.Proofs.Words

/-! # Lines of an output

    An output is read line by line.  What is written as one line comes back as one line,
    unless there is a newline in it: then it is as many lines more as it has newlines.

    * **Lines**: `lines`, and `lines_join` — a row of texts, each with its end, has the
      lines of each of them, one text after the other.
    * **Tokens**: `execute_tokenize_lines` — a listing in lines has one line for each token
      exactly if no text of a token has a newline in it. -/

namespace SqlTokens

open Utf8 (ofString)

/-! ## Lines -/

/-- The lines of a text.  A newline ends a line, and so does the end of the text if
    something stands behind the last newline. -/
def splitLines : List Char → List (List Char)
  | [] => []
  | c :: text =>
    if c = '\n' then [] :: splitLines text
    else match splitLines text with
      | [] => [[c]]
      | line :: more => (c :: line) :: more

/-- The lines of an output, without their ends. -/
def lines (text : String) : List String :=
  (splitLines text.toList).map String.ofList

theorem splitLines_newline (text : List Char) :
    splitLines ('\n' :: text) = [] :: splitLines text :=
  if_pos rfl

/-- What has no newline in it goes on with the first line of what comes behind it. -/
theorem splitLines_append {start text first : List Char} {more : List (List Char)}
    (hstart : '\n' ∉ start) (h : splitLines text = first :: more) :
    splitLines (start ++ text) = (start ++ first) :: more := by
  induction start with
  | nil => exact h
  | cons c start ih =>
    have hc : c ≠ '\n' := fun hc => hstart (hc ▸ List.mem_cons_self)
    have hrest : '\n' ∉ start := fun hrest => hstart (List.mem_cons_of_mem c hrest)
    rw [List.cons_append, splitLines, if_neg hc, ih hrest]
    rfl

/-- A text with a newline behind it has a line more than it has newlines in it. -/
theorem length_splitLines_concat (text : List Char) :
    (splitLines (text ++ ['\n'])).length = text.count '\n' + 1 := by
  induction text with
  | nil => rfl
  | cons c text ih =>
    rw [List.cons_append, splitLines, List.count_cons]
    by_cases hc : c = '\n'
    · rw [if_pos hc, List.length_cons, ih, hc]
      rfl
    · rw [if_neg hc, beq_false_of_ne hc, if_neg Bool.false_ne_true, Nat.add_zero, ← ih]
      cases hlines : splitLines (text ++ ['\n']) with
      | nil =>
        rw [hlines] at ih
        cases ih
      | cons line more => rfl

/-- A newline takes a text apart. -/
theorem splitLines_append_newline (text rest : List Char) :
    splitLines (text ++ '\n' :: rest) = splitLines (text ++ ['\n']) ++ splitLines rest := by
  induction text with
  | nil =>
    rw [List.nil_append, List.nil_append, splitLines_newline, splitLines_newline]
    rfl
  | cons c text ih =>
    rw [List.cons_append, List.cons_append, splitLines, splitLines, ih]
    by_cases hc : c = '\n'
    · rw [if_pos hc, if_pos hc, List.cons_append]
    · rw [if_neg hc, if_neg hc]
      cases hlines : splitLines (text ++ ['\n']) with
      | nil =>
        have hlength := length_splitLines_concat text
        rw [hlines] at hlength
        cases hlength
      | cons line more => rfl

theorem toList_append_newline (text : String) : (text ++ "\n").toList = text.toList ++ ['\n'] :=
  String.toList_append

/-- What has no newline in it comes back as one line. -/
theorem lines_of_not_mem {text : String} (h : '\n' ∉ text.toList) :
    lines (text ++ "\n") = [text] := by
  have hline := splitLines_append h (splitLines_newline [])
  rw [lines, toList_append_newline, hline, List.append_nil]
  exact congrArg (fun line => [line]) String.ofList_toList

/-- **Lines**: texts that are written each with its end have the lines of each of them. -/
theorem lines_join (texts : List String) :
    lines (String.join (texts.map fun text => text ++ "\n")) =
      texts.flatMap fun text => lines (text ++ "\n") := by
  induction texts with
  | nil => rfl
  | cons text texts ih =>
    rw [List.map_cons, String.join_cons, List.flatMap_cons, ← ih, lines, lines, lines,
      ← List.map_append, String.toList_append, toList_append_newline, List.append_assoc,
      List.singleton_append, splitLines_append_newline]

/-- Texts without newlines come back as they were written. -/
theorem lines_join_of_not_mem {texts : List String} (h : ∀ text ∈ texts, '\n' ∉ text.toList) :
    lines (String.join (texts.map fun text => text ++ "\n")) = texts := by
  rw [lines_join]
  induction texts with
  | nil => rfl
  | cons text texts ih =>
    obtain ⟨htext, htexts⟩ := List.forall_mem_cons.1 h
    rw [List.flatMap_cons, lines_of_not_mem htext, ih htexts]
    rfl

/-! ## Tokens -/

theorem newline_not_mem_toString (n : Nat) : '\n' ∉ (toString n).toList := by
  rw [Nat.toString_eq_repr, Nat.toList_repr]
  intro h
  have hdigit := Nat.isDigit_of_mem_toDigits (by decide) (by decide) h
  cases hdigit

/-- No kind is shown with a newline. -/
theorem TokenKind.newline_not_mem_display (kind : TokenKind) : '\n' ∉ kind.display.toList := by
  have hkeywords : ∀ k ∈ Keyword.all, '\n' ∉ k.spelling.toList.map Char.toUpper := by
    decide +kernel
  cases kind with
  | keyword k =>
    rw [display, Keyword.display, String.toList_ofList]
    exact hkeywords k (Keyword.mem_all k)
  | operator sign => cases sign <;> decide
  | _ => decide

/-- How a token starts on its line: its position and its kind. -/
def Token.place (t : Token) : String :=
  toString t.position ++ "\t" ++ t.kind.display

/-- A line starts with the position and the kind of a token. -/
def Token.StartsLine (t : Token) (line : String) : Prop :=
  ∃ ending, line = t.place ++ ending

/-- The lines that a token takes: the first starts with its position and its kind, and
    each newline in its text is followed by one more. -/
def Token.IsListed (t : Token) (group : List String) : Prop :=
  ∃ line more, group = line :: more ∧ t.StartsLine line ∧
    more.length = t.text.toList.count '\n'

theorem Token.newline_not_mem_place (t : Token) : '\n' ∉ t.place.toList := by
  rw [place, String.toList_append, String.toList_append, List.mem_append, List.mem_append]
  rintro ((h | h) | h)
  · exact newline_not_mem_toString t.position h
  · exact absurd h (by decide)
  · exact t.kind.newline_not_mem_display h

/-- What is listed of a token behind its place has the newlines of its text. -/
theorem Token.exists_listing_eq (t : Token) :
    ∃ ending, t.listing = t.place ++ ending ∧
      ending.toList.count '\n' = t.text.toList.count '\n' := by
  obtain ⟨kind, value, position⟩ := t
  cases value with
  | none =>
    have htext : Token.text ⟨kind, none, position⟩ = "" := by
      rw [text, bytes, Option.getD_none, Utf8.toStringLossy, Utf8.decodeLossy, Utf8.units,
        Utf8.unitsOnto]
      rfl
    exact ⟨"", String.append_empty.symm, by rw [htext]⟩
  | some v =>
    refine ⟨"\t" ++ Token.text ⟨kind, some v, position⟩, String.append_assoc, ?_⟩
    rw [String.toList_append, List.count_append]
    exact Nat.zero_add _

theorem Token.isListed_listing (t : Token) : t.IsListed (lines (t.listing ++ "\n")) := by
  obtain ⟨ending, hlisting, hcount⟩ := t.exists_listing_eq
  have hlength := length_splitLines_concat ending.toList
  cases hsplit : splitLines (ending.toList ++ ['\n']) with
  | nil =>
    rw [hsplit] at hlength
    cases hlength
  | cons first more =>
    have hlines := splitLines_append t.newline_not_mem_place hsplit
    refine ⟨_, more.map String.ofList, ?_, ⟨String.ofList first, rfl⟩, ?_⟩
    · rw [lines, toList_append_newline, hlisting, String.toList_append, List.append_assoc, hlines,
        List.map_cons, String.ofList_append, String.ofList_toList]
    · rw [hsplit, List.length_cons] at hlength
      rw [List.length_map, ← hcount]
      exact Nat.succ.inj hlength

/-- All tokens together take at least as many lines as there are tokens, and not more
    exactly if there is no newline in their texts. -/
theorem length_flatten_of_isListed {tokens : List Token} {groups : List (List String)}
    (h : List.Forall₂ Token.IsListed tokens groups) :
    tokens.length ≤ groups.flatten.length ∧
      (groups.flatten.length = tokens.length ↔ ∀ t ∈ tokens, '\n' ∉ t.text.toList) := by
  induction h with
  | nil => simp
  | cons hgroup _ ih =>
    obtain ⟨hle, hiff⟩ := ih
    obtain ⟨line, more, rfl, -, hmore⟩ := hgroup
    rw [List.forall_mem_cons, ← hiff, ← List.count_eq_zero, ← hmore]
    simp only [List.flatten_cons, List.length_append, List.length_cons]
    omega

/-- Without newlines in the texts, each token takes one line. -/
theorem forall₂_flatten_of_isListed {tokens : List Token} {groups : List (List String)}
    (h : List.Forall₂ Token.IsListed tokens groups)
    (hnone : ∀ t ∈ tokens, '\n' ∉ t.text.toList) :
    List.Forall₂ Token.StartsLine tokens groups.flatten := by
  induction h with
  | nil => exact .nil
  | cons hgroup _ ih =>
    obtain ⟨ht, hrest⟩ := List.forall_mem_cons.1 hnone
    obtain ⟨line, more, rfl, hstart, hmore⟩ := hgroup
    rw [List.count_eq_zero_of_not_mem ht, List.length_eq_zero_iff] at hmore
    rw [hmore]
    exact .cons hstart (ih hrest)

/-- **Tokens**: a statement without a malformed token is listed in lines.  Each token takes
    one line more than its text has newlines, and the first of them starts with its position
    and its kind.  So there is one line for each token exactly if no text of a token has a
    newline in it, and then the lines start with the positions and the kinds of the tokens,
    in order. -/
theorem execute_tokenize_lines {sql : String} {given file : Option String} {files : Files}
    (hsql : statementText files given file = .ok sql)
    (h : ∀ x ∈ scanned (ofString sql), x.token.isMalformed = false)
    (config : Config) (allowComments : Bool) :
    ∃ tokens stop out groups,
      ((Lexer.start (ofString sql)).showComments
        (allowComments || config.allowComments)).tokenize =
          .ok (tokens ++ [⟨.endOfInput, none, stop⟩]) ∧
      (Command.tokenize given file allowComments false).execute config files .accepting =
        (out, .ok ()) ∧
      lines out = groups.flatten ∧
      List.Forall₂ Token.IsListed tokens groups ∧
      ((lines out).length = tokens.length ↔ ∀ t ∈ tokens, '\n' ∉ t.text.toList) ∧
      ((∀ t ∈ tokens, '\n' ∉ t.text.toList) →
        List.Forall₂ Token.StartsLine tokens (lines out)) := by
  obtain ⟨tokens, stop, htokenize, hplan, -⟩ :=
    planTokens_of_wellFormed h (allowComments || config.allowComments) false
  have hlines : lines (String.join ((tokens.map Token.listing).map fun text => text ++ "\n")) =
      (tokens.map fun t => lines (t.listing ++ "\n")).flatten := by
    rw [lines_join, List.flatMap_map, List.flatMap_def]
  have hgroups : List.Forall₂ Token.IsListed tokens
      (tokens.map fun t => lines (t.listing ++ "\n")) := by
    rw [List.forall₂_map_right_iff, List.forall₂_same]
    intro t _
    exact t.isListed_listing
  refine ⟨tokens, stop, _, _, htokenize, ?_, hlines, hgroups, ?_, ?_⟩
  · rw [execute_tokenize hsql, hplan, List.map_map]
    show (String.join ((tokens.map _).map _), _) = _
    rw [List.map_map]
    rfl
  · rw [hlines]
    exact (length_flatten_of_isListed hgroups).2
  · intro hnone
    rw [hlines]
    exact forall₂_flatten_of_isListed hgroups hnone

/-- Two tokens on two lines of a statement, and a comment that the settings show. -/
theorem execute_tokenize_lines_shown :
    let sql := "a\n'b\tc'--"
    let files : Files := fun _ => some (ofString sql)
    statementText files none (some "q.sql") = .ok sql ∧
    (∀ x ∈ scanned (ofString sql), x.token.isMalformed = false) ∧
    ∃ out, (Command.tokenize none (some "q.sql") false false).execute ⟨true, "info"⟩ files
        .accepting = (out, .ok ()) ∧
      List.Forall₂ Token.StartsLine
        [⟨.identifier, some (ofString "a"), 1⟩, ⟨.string, some (ofString "b\tc"), 3⟩,
          ⟨.comment, some (ofString "--"), 8⟩] (lines out) := by
  intro sql files
  have hsql : statementText files none (some "q.sql") = .ok sql := by
    rw [statementText, readText_ofString]
    rfl
  have hwell : ∀ x ∈ scanned (ofString sql), x.token.isMalformed = false := by decide +kernel
  have htokens : ((scanned (ofString sql)).filter (Scanned.isShown true)).map Scanned.token =
      [⟨.identifier, some (ofString "a"), 1⟩, ⟨.string, some (ofString "b\tc"), 3⟩,
        ⟨.comment, some (ofString "--"), 8⟩] ++ [⟨.endOfInput, none, 10⟩] := by
    decide +kernel
  obtain ⟨tokens, stop, out, groups, htokenize, hexecute, -, -, -, hlines⟩ :=
    execute_tokenize_lines hsql hwell ⟨true, "info"⟩ false
  rw [Lexer.tokenize_of_wellFormed hwell] at htokenize
  obtain ⟨rfl, -⟩ := List.append_inj' (htokens.symm.trans (Except.ok.inj htokenize)) rfl
  exact ⟨hsql, hwell, out, hexecute, hlines (by decide +kernel)⟩

/-- A newline in a string makes a second line, which reads like that of a number. -/
theorem execute_tokenize_lines_forged :
    let sql := "'x\n4\tNUMBER\t1'"
    (∀ x ∈ scanned (ofString sql), x.token.isMalformed = false) ∧
    ((Lexer.start (ofString sql)).showComments false).tokenize =
      .ok [⟨.string, some (ofString "x\n4\tNUMBER\t1"), 1⟩, ⟨.endOfInput, none, 15⟩] ∧
    (Command.tokenize (some sql) none false false).execute .standard (fun _ => none)
      .accepting = ("1\tSTRING\tx\n4\tNUMBER\t1\n", .ok ()) ∧
    lines "1\tSTRING\tx\n4\tNUMBER\t1\n" = ["1\tSTRING\tx", "4\tNUMBER\t1"] := by
  intro sql
  have hwell : ∀ x ∈ scanned (ofString sql), x.token.isMalformed = false := by decide +kernel
  have htokens : ((scanned (ofString sql)).filter (Scanned.isShown false)).map Scanned.token =
      [⟨.string, some (ofString "x\n4\tNUMBER\t1"), 1⟩, ⟨.endOfInput, none, 15⟩] := by
    decide +kernel
  have htokenize := Lexer.tokenize_of_wellFormed hwell false
  rw [htokens] at htokenize
  have hlisting : String.join
      [Token.listing ⟨.string, some (ofString "x\n4\tNUMBER\t1"), 1⟩ ++ "\n"] =
        "1\tSTRING\tx\n4\tNUMBER\t1\n" := by
    decide +kernel
  refine ⟨hwell, htokenize, ?_, by decide +kernel⟩
  show (planTokens sql false false).deliver .accepting = _
  rw [planTokens, htokenize, ← hlisting]
  rfl

end SqlTokens
