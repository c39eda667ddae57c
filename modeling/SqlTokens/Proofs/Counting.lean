import Mathlib.Data.List.Nodup
import SqlTokens.Proofs.Binding
import SqlTokens.Proofs.Progress
import SqlTokens.Proofs.View

/-! # Counting placeholders

    A lexer counts the `?` that it passes, and makes their names from the count.  So
    the count is that of the `?` before the position, whatever was asked for on the way
    and whatever became of the answers, and the same name is never made twice.

    * **One scan**: `Scanner.ordinals_next` — a `?` is counted, and nothing else.
    * **The run**: `filter_questionsOf`, `take_questionsOf` — the position and the count
      both tell which `?` were passed.
    * **One command**: `Lexer.StandsAt.perform` — it pulls every `?` that it passes.
    * **Whole sessions**: `Lexer.session_counts`. -/

namespace SqlTokens

open Utf8 (ofString)

/-! ## One scan -/

/-- **One scan**: the number of a `?` is one more than the number before it, and
    nothing else changes the number. -/
theorem Scanner.ordinals_next {before : Bytes} {s : Scanner}
    (hs : s.position = before.length + 1) :
    s.next.2.ordinals = s.ordinals +
      if Scanned.isQuestion (before ++ s.cursor.rest)
        ⟨s.next.1, s.next.2.position, s.next.2.ordinals⟩ then 1 else 0 := by
  obtain ⟨⟨rest, p⟩, n⟩ := s
  obtain rfl : p = before.length + 1 := hs
  rcases blank_or_lexeme rest with hblank | ⟨blanks, b, more, tail, rfl, hblank, hb, hr⟩
  · -- The end of the input has no source, so it is no `?`.
    rw [next_blank hblank]
    have hno : ∀ q, Scanned.isQuestion (before ++ rest) (.ending q n) = false := by
      intro q
      rw [Scanned.isQuestion, Scanned.source_ending]
      rfl
    exact (congrArg (fun c : Bool => n + if c then 1 else 0) (hno _)).symm
  · rw [next_lexeme hblank hb hr]
    have hsource := Scanned.source_middle before blanks (Lexeme.read b (more ++ tail)).source tail
      (Lexeme.read b (more ++ tail)).kind
    have hordinal := Lexeme.content_eq_ordinal_iff b (more ++ tail)
    have hinput : before ++ (blanks ++ b :: (more ++ tail)) =
        before ++ (blanks ++ ((Lexeme.read b (more ++ tail)).source ++ tail)) := by
      rw [hr, List.cons_append]
    show Content.count n _ = n + _
    rw [Segment.count_eq, Scanned.isQuestion, hinput]
    simp only [Scanner.position, hsource, hordinal, beq_iff_eq]

/-- What a sound lexer has left, and what it has passed, is the input. -/
theorem Lexer.IsSound.exists_before {input : Bytes} {lx : Lexer} (h : lx.IsSound input) :
    ∃ before, input = before ++ lx.scanner.cursor.rest ∧ lx.position = before.length + 1 := by
  have hpos := h.position_pos
  have hle := h.position_le
  refine ⟨input.take (lx.position - 1), ?_, ?_⟩
  · rw [h.rest, List.take_append_drop]
  · rw [List.length_take]
    omega

/-- What the run has counted behind its `i`-th token. -/
theorem ordinals_tokenAt (input : Bytes) (i : Nat) :
    (tokenAt input i).ordinals = ((Lexer.start input).scans i).ordinals +
      if (tokenAt input i).isQuestion input then 1 else 0 := by
  obtain ⟨before, hinput, hposition⟩ := (Lexer.isSound_scans input i).exists_before
  have hcount := Scanner.ordinals_next hposition
  rw [← hinput] at hcount
  rw [tokenAt, Lexer.scan_of_not_isTruncated (Lexer.isTruncated_scans input i)]
  exact hcount

/-! ## The run -/

theorem Scanned.isQuestion_of_isEnd {input : Bytes} {x : Scanned} (hx : x ∈ scanned input)
    (h : x.token.isEnd = true) : x.isQuestion input = false := by
  apply Bool.eq_false_iff.2
  intro hq
  have hkind := ((isQuestion_iff hx).1 hq).1
  rw [Token.isEnd_iff.1 h] at hkind
  cases hkind

/-- The count is that of the `?` among the tokens that were passed. -/
theorem ordinals_scans (input : Bytes) (n : Nat) :
    ((Lexer.start input).scans n).ordinals =
      ((tokensFrom input 0 n).filter (Scanned.isQuestion input)).length := by
  induction n with
  | zero => rfl
  | succ n ih =>
    have hone := ordinals_tokenAt input n
    rw [ih] at hone
    rw [← tokensFrom_concat, List.filter_append, List.length_append, Nat.zero_add]
    apply hone.trans
    by_cases hq : (tokenAt input n).isQuestion input = true
    · rw [if_pos hq, List.filter_cons_of_pos hq]
      rfl
    · rw [if_neg hq, List.filter_cons_of_neg hq]
      rfl

/-- The `?` of the input are those before any place of the run and those behind it. -/
theorem exists_questionsOf_eq (input : Bytes) (n : Nat) :
    ∃ m, questionsOf input = (tokensFrom input 0 n).filter (Scanned.isQuestion input) ++
      (tokensFrom input n m).filter (Scanned.isQuestion input) := by
  obtain ⟨k, q, hstream, hends⟩ := scanned_eq_tokensFrom input
  refine ⟨k + 1, ?_⟩
  -- Behind the stream the end comes again, however far the place is.
  have hnone : (tokensFrom input (0 + (k + 1)) n).filter (Scanned.isQuestion input) = [] := by
    apply List.filter_eq_nil_iff.2
    intro x hx
    obtain ⟨j, hj, -, rfl⟩ := mem_tokensFrom.1 hx
    have hend : (tokenAt input j).token.isEnd = true := by
      rw [hends j (by omega)]
      rfl
    rw [Scanned.isQuestion_of_isEnd (tokenAt_mem_scanned input j) hend]
    exact Bool.false_ne_true
  calc questionsOf input
      = (tokensFrom input 0 (k + 1)).filter (Scanned.isQuestion input) := by
        rw [questionsOf, hstream]
    _ = (tokensFrom input 0 (k + 1) ++ tokensFrom input (0 + (k + 1)) n).filter
          (Scanned.isQuestion input) := by rw [List.filter_append, hnone, List.append_nil]
    _ = (tokensFrom input 0 n ++ tokensFrom input (0 + n) (k + 1)).filter
          (Scanned.isQuestion input) := by
        rw [tokensFrom_append, tokensFrom_append, Nat.add_comm]
    _ = _ := by rw [List.filter_append, Nat.zero_add]

theorem position_scans_le (input : Bytes) {m n : Nat} (h : m ≤ n) :
    ((Lexer.start input).scans m).position ≤ ((Lexer.start input).scans n).position := by
  induction n, h using Nat.le_induction with
  | base => exact Nat.le_refl _
  | succ n h ih => exact ih.trans (Lexer.scan_passes _).position_le

/-- **By position**: the `?` before the position are those among the tokens that were
    passed. -/
theorem filter_questionsOf (input : Bytes) (n : Nat) :
    (questionsOf input).filter (fun x => x.stop ≤ ((Lexer.start input).scans n).position) =
      (tokensFrom input 0 n).filter (Scanned.isQuestion input) := by
  obtain ⟨m, hquestions⟩ := exists_questionsOf_eq input n
  have hpassed : ∀ x ∈ (tokensFrom input 0 n).filter (Scanned.isQuestion input),
      decide (x.stop ≤ ((Lexer.start input).scans n).position) = true := by
    intro x hx
    obtain ⟨j, -, hj, rfl⟩ := mem_tokensFrom.1 (List.mem_filter.1 hx).1
    rw [Nat.zero_add] at hj
    exact decide_eq_true (position_scans_le input (Nat.succ_le_of_lt hj))
  have hlater : ∀ x ∈ (tokensFrom input n m).filter (Scanned.isQuestion input),
      ¬decide (x.stop ≤ ((Lexer.start input).scans n).position) = true := by
    -- A `?` that comes later is not the end, and takes the position further.
    intro x hx
    obtain ⟨hmem, hq⟩ := List.mem_filter.1 hx
    obtain ⟨j, hj, -, rfl⟩ := mem_tokensFrom.1 hmem
    rcases ((Lexer.start input).scans j).isEnd_or_position_lt with hend | hlt
    · rw [Scanned.isQuestion_of_isEnd (tokenAt_mem_scanned input j) hend] at hq
      cases hq
    · rw [decide_eq_true_eq, Nat.not_le]
      exact (position_scans_le input hj).trans_lt hlt
  rw [hquestions, List.filter_append, List.filter_eq_self.2 hpassed,
    List.filter_eq_nil_iff.2 hlater, List.append_nil]

/-- **By number**: the first `?`, as many as were counted, are those among the tokens
    that were passed. -/
theorem take_questionsOf (input : Bytes) (n : Nat) :
    (questionsOf input).take ((Lexer.start input).scans n).ordinals =
      (tokensFrom input 0 n).filter (Scanned.isQuestion input) := by
  obtain ⟨m, hquestions⟩ := exists_questionsOf_eq input n
  rw [hquestions, ordinals_scans, List.take_left]

/-! ## Names -/

/-- The `k`-th `?`, counted from zero. -/
theorem value_of_getElem_questionsOf {input : Bytes} {k : Nat}
    (h : k < (questionsOf input).length) :
    (questionsOf input)[k].token.value = some (ofString (":v" ++ toString (k + 1))) := by
  have hnumbered := congrArg (fun l => l[k]?) (questions_numbered input).1
  simp only [List.getElem?_map, List.getElem?_eq_getElem h, List.getElem?_range' h,
    Option.map_some, Option.some.injEq, Prod.mk.injEq] at hnumbered
  rw [hnumbered.1, ordinalName, Nat.one_mul, Nat.add_comm 1]

/-- No name is made twice. -/
theorem nodup_values_of_questions (input : Bytes) :
    ((questionsOf input).map fun x => x.token.value).Nodup := by
  -- The names differ as texts.
  have htexts := nodup_ordinalTexts (questionsOf input).length
  have htext : (fun x : Scanned => x.token.text) =
      (fun value : Option Bytes => Utf8.toStringLossy (value.getD [])) ∘
        fun x => x.token.value := rfl
  rw [← texts_of_questions, htext, ← List.map_map] at htexts
  exact List.Nodup.of_map _ htexts

/-! ## Tokens by themselves -/

/-- Whether a token of `input` is a placeholder and starts at a `?`. -/
def Token.isQuestion (input : Bytes) (t : Token) : Bool :=
  t.kind == .placeholder && input[t.position - 1]? == some Byte.question

theorem Scanned.head?_source {input : Bytes} {x : Scanned} (h : x.source input ≠ []) :
    (x.source input).head? = input[x.token.position - 1]? := by
  apply getElem?_slice_start
  by_contra hno
  apply h
  rw [Scanned.source, slice, Nat.sub_eq_zero_of_le (Nat.le_of_not_lt hno), List.take_zero]

/-- A consumer, who sees no more than the token, can tell whether it is a `?`. -/
theorem Token.isQuestion_eq {input : Bytes} {x : Scanned} (hx : x ∈ scanned input) :
    x.token.isQuestion input = x.isQuestion input := by
  rw [Bool.eq_iff_iff, isQuestion_iff hx, Token.isQuestion, Bool.and_eq_true, beq_iff_eq,
    beq_iff_eq]
  apply and_congr_right
  intro hkind
  rcases spells_of_mem_scanned hx with ⟨hend, -⟩ | ⟨content, hspells, -, -⟩
  · cases hkind.symm.trans hend
  · -- A name starts with a colon, and the other placeholder is a `?`.
    have hne : x.source input ≠ [] := by
      intro hnil
      rw [hkind, hnil] at hspells
      rcases hspells with ⟨-, name, hname, -⟩ | ⟨hq, -⟩
      · cases hname
      · cases hq
    rw [← Scanned.head?_source hne]
    rw [hkind] at hspells
    rcases hspells with ⟨-, hnamed⟩ | ⟨hq, -⟩
    · rw [isNamed_head? hnamed]
      decide
    · rw [hq]
      decide

/-- The `?` among tokens that were passed. -/
theorem filter_tokensFrom (input : Bytes) (i n : Nat) :
    ((tokensFrom input i n).map Scanned.token).filter (Token.isQuestion input) =
      ((tokensFrom input i n).filter (Scanned.isQuestion input)).map Scanned.token := by
  rw [List.filter_map]
  apply congrArg
  apply List.filter_congr
  intro x hx
  obtain ⟨j, -, -, rfl⟩ := mem_tokensFrom.1 hx
  exact Token.isQuestion_eq (tokenAt_mem_scanned input j)

/-- Only comments are hidden, and a comment is no `?`. -/
theorem filter_shown (input : Bytes) (shown : Bool) (xs : List Scanned) :
    ((xs.filter (Scanned.isShown shown)).map Scanned.token).filter (Token.isQuestion input) =
      (xs.map Scanned.token).filter (Token.isQuestion input) := by
  rw [List.filter_map, List.filter_map, List.filter_filter]
  apply congrArg
  apply List.filter_congr
  intro x _
  cases hk : x.token.kind == .placeholder with
  | false => simp [Token.isQuestion, hk]
  | true => simp [Scanned.isShown, beq_iff_eq.1 hk]

/-- Through the first token that is shown, no other is. -/
theorem filter_isShown_of_isLeast {input : Bytes} {i k : Nat} {shown : Bool}
    (hk : IsLeast {k | i ≤ k ∧ (tokenAt input k).isShown shown = true} k) :
    (tokensFrom input i (k + 1 - i)).filter (Scanned.isShown shown) = [tokenAt input k] := by
  obtain ⟨⟨hle, hshown⟩, hleast⟩ := hk
  have hhidden : (tokensFrom input i (k - i)).filter (Scanned.isShown shown) = [] := by
    apply List.filter_eq_nil_iff.2
    intro x hx hyes
    obtain ⟨j, hj, hjk, rfl⟩ := mem_tokensFrom.1 hx
    have hkj : k ≤ j := hleast ⟨hj, hyes⟩
    omega
  rw [← tokensFrom_through input hle, List.filter_append, hhidden, List.nil_append,
    List.filter_cons_of_pos hshown]
  rfl

/-! ## Sessions -/

namespace Lexer

/-- The lexer after a session. -/
def after (lx : Lexer) (commands : List Command) : Lexer :=
  (lx.session commands).getLast?.elim lx Outcome.lexer

theorem after_cons (lx : Lexer) (command : Command) (more : List Command) :
    lx.after (command :: more) = (lx.perform command).lexer.after more := by
  rw [after, after, session, List.getLast?_cons]
  cases ((lx.perform command).lexer.session more).getLast? with
  | none => rfl
  | some outcome => rfl

namespace StandsAt

variable {input : Bytes} {i : Nat} {lx : Lexer}

/-- A lexer that stands somewhere and whose statement was not ended. -/
theorem isAt (h : lx.StandsAt input i) (ht : lx.isTruncated = false) :
    lx.IsAt input ⟨i, lx.showsComments⟩ :=
  ⟨h, rfl, ht⟩

/-- **One command**: the lexer passes some tokens of the run, and pulls all `?` among
    them, in order, and no other. -/
theorem perform (h : lx.StandsAt input i) (command : Command) :
    ∃ n, (lx.perform command).lexer.StandsAt input (i + n) ∧
      (lx.pulledBy command).filter (Token.isQuestion input) =
        ((tokensFrom input i n).map Scanned.token).filter (Token.isQuestion input) := by
  by_cases ht : lx.isTruncated = true
  · -- The statement was ended, so only its end can be pulled.
    have hdone : lx.IsDone := .inl ht
    obtain ⟨-, hscanner, hpulled, -⟩ := hdone.perform command
    refine ⟨0, hscanner.trans h, List.filter_eq_nil_iff.2 ?_⟩
    intro t htoken
    rw [hpulled t htoken]
    exact Bool.false_ne_true
  · have hat := h.isAt (Bool.eq_false_iff.2 ht)
    cases command with
    | next =>
      obtain ⟨k, hk, htoken, hafter⟩ := hat.next
      have hplace : i + (k + 1 - i) = k + 1 := Nat.add_sub_cancel' (Nat.le_succ_of_le hk.1.1)
      refine ⟨k + 1 - i, ?_, ?_⟩
      · rw [hplace]
        exact hafter.stands
      · rw [pulledBy, htoken, ← filter_shown, filter_isShown_of_isLeast hk]
        rfl
    | scan =>
      obtain ⟨htoken, hafter⟩ := hat.scan
      refine ⟨1, hafter.stands, ?_⟩
      rw [pulledBy, htoken]
      rfl
    | tokenize =>
      obtain ⟨k, hk, -, hpulls, hafter⟩ := hat.readStatement
      have hplace : i + (k + 1 - i) = k + 1 := Nat.add_sub_cancel' (Nat.le_succ_of_le hk.1.1)
      refine ⟨k + 1 - i, ?_, ?_⟩
      · rw [hplace]
        exact (Course.scanner_lexer _).trans hafter.stands
      · rw [pulledBy, Course.tokens_eq, hpulls, filter_shown]
    | truncate => exact ⟨0, h, rfl⟩
    | comments shown => exact ⟨0, h, rfl⟩
    | report message => exact ⟨0, h, rfl⟩

/-- **Whole sessions**: so does a lexer over all commands. -/
theorem after (h : lx.StandsAt input i) (commands : List Command) :
    ∃ n, (lx.after commands).StandsAt input (i + n) ∧
      (lx.pulled commands).filter (Token.isQuestion input) =
        ((tokensFrom input i n).map Scanned.token).filter (Token.isQuestion input) := by
  -- By induction on the commands; what they pass comes one after the other.
  induction commands generalizing i lx with
  | nil => exact ⟨0, h, rfl⟩
  | cons command more ih =>
    obtain ⟨m, hstep, hone⟩ := h.perform command
    obtain ⟨n, hafter, hmore⟩ := ih hstep
    refine ⟨m + n, ?_, ?_⟩
    · rw [after_cons, ← Nat.add_assoc]
      exact hafter
    · rw [pulled, List.filter_append, hone, hmore, ← tokensFrom_append, List.map_append,
        List.filter_append]

/-- After each command of a session the lexer stands somewhere. -/
theorem of_mem_session (h : lx.StandsAt input i) {commands : List Command} {outcome : Outcome}
    (ho : outcome ∈ lx.session commands) : ∃ j, outcome.lexer.StandsAt input j := by
  induction commands generalizing i lx with
  | nil => cases ho
  | cons command more ih =>
    obtain ⟨n, hstep, -⟩ := h.perform command
    rcases List.mem_cons.1 ho with rfl | ho
    · exact ⟨i + n, hstep⟩
    · exact ih hstep ho

/-- The count of a lexer that stands somewhere. -/
theorem ordinals_eq_length (h : lx.StandsAt input i) :
    lx.ordinals = ((questionsOf input).filter fun x => x.stop ≤ lx.position).length := by
  rw [h.ordinals_eq, h.position_eq, filter_questionsOf, ordinals_scans]

end StandsAt

/-- **Counting**: after each command of a session, the lexer has counted the `?` that lie
    before its position, those in hidden comments, in texts and in names not being any.
    What the session pulled, be it from a statement that was refused, has the first of
    the `?`, as many as were counted, and no other; and the `k`-th of them, counted from
    one, is called `:v` and the decimal of `k`, as no other is. -/
theorem session_counts (input : Bytes) (shown : Bool) (commands : List Command) :
    let lx := (start input).showComments shown
    let questions := questionsOf input
    (∀ lx' ∈ lx :: (lx.session commands).map Outcome.lexer,
      lx'.ordinals = (questions.filter fun x => x.stop ≤ lx'.position).length) ∧
    (lx.pulled commands).filter (Token.isQuestion input) =
      (questions.take (lx.after commands).ordinals).map Scanned.token ∧
    (∀ k (h : k < questions.length),
      questions[k].token.value = some (ofString (":v" ++ toString (k + 1)))) ∧
    (questions.map fun x => x.token.value).Nodup := by
  intro lx questions
  have hstart : lx.StandsAt input 0 := standsAt_start input shown
  refine ⟨?_, ?_, fun k h => value_of_getElem_questionsOf h, nodup_values_of_questions input⟩
  · intro lx' hlx'
    rcases List.mem_cons.1 hlx' with rfl | hlx'
    · exact hstart.ordinals_eq_length
    · obtain ⟨outcome, ho, rfl⟩ := List.mem_map.1 hlx'
      obtain ⟨j, hstands⟩ := hstart.of_mem_session ho
      exact hstands.ordinals_eq_length
  · obtain ⟨n, hafter, hpulled⟩ := hstart.after commands
    rw [Nat.zero_add] at hafter
    rw [hpulled, filter_tokensFrom, hafter.ordinals_eq, take_questionsOf]

end Lexer

end SqlTokens
