import SqlTokens.Proofs.Quoted
import SqlTokens.Proofs.Replacement
import SqlTokens.Proofs.Segment

/-! # Lookahead

    A rule of the lexer looks at one byte after its lexeme at most, and only to see
    whether that byte goes on with the lexeme.  So a lexeme does not change when
    what follows it is replaced, and neither do the segments of an input.

    * **Lexemes**: `Lexeme.read_isLocal` — the same lexeme is read.
    * **Segments**: `Cuts.replace` — the same segments are cut. -/

namespace SqlTokens

namespace Lexeme

/-- The lexeme that a rule reads after its first byte `b` does not change when what
    follows it is replaced. -/
def IsLocal (b : UInt8) (rule : Bytes → Lexeme) : Prop :=
  ∀ {x t t' : Bytes}, (rule (x ++ t)).source = b :: x → Replaces (b :: x) t' t →
    rule (x ++ t') = rule (x ++ t)

/-! ## Words, placeholders and numbers -/

theorem word_congr {s s' : Bytes}
    (h : Span.run Byte.isWordByte s = Span.run Byte.isWordByte s') : word s = word s' := by
  unfold word
  rw [h]

theorem word_isLocal (b : UInt8) : IsLocal b fun s => word (b :: s) := by
  intro x t t' hs h
  rw [word_source] at hs
  exact word_congr ((Span.run_isLocal Byte.isSought_isWordByte hs h).trans hs.symm)

theorem named_congr {s s' : Bytes}
    (h : Span.run Byte.isNameByte s = Span.run Byte.isNameByte s') : named s = named s' := by
  unfold named
  rw [h]

theorem named_source (s : Bytes) :
    (named s).source = Byte.colon :: Span.run Byte.isNameByte s := by
  unfold named
  split
  · next hn => simp [verbatim, hn]
  · rfl

theorem named_isLocal : IsLocal Byte.colon named := by
  intro x t t' hs h
  rw [named_source, List.cons.injEq] at hs
  exact named_congr
    ((Span.run_isLocal Byte.isSought_isNameByte hs.2 (h.of_append (y := [_]))).trans hs.2.symm)

theorem number_isLocal (b : UInt8) : IsLocal b fun s => number (b :: s) := by
  intro x t t' hs h
  dsimp only at hs ⊢
  rw [← List.cons_append] at hs ⊢
  rw [← List.cons_append]
  unfold number at hs ⊢
  have hx' := Number.startsHexadecimal_replace h fun hx => by
    rw [if_pos hx] at hs
    exact hs
  rw [hx']
  -- The same rule reads the number, and what that rule takes is local.
  cases hx : Number.startsHexadecimal (b :: x ++ t) with
  | true =>
    rw [if_pos hx] at hs
    have hd : Number.hexadecimal (b :: x ++ t) = b :: x := hs
    rw [if_pos rfl, if_pos rfl, hd, Number.hexadecimal_isLocal hd h]
  | false =>
    rw [hx, if_neg Bool.false_ne_true] at hs
    rw [if_neg Bool.false_ne_true, if_neg Bool.false_ne_true]
    cases ho : Number.isIllegalOctal (b :: x ++ t) with
    | true =>
      rw [if_pos ho] at hs
      have hd : Number.digits (b :: x ++ t) = b :: x := hs
      rw [Number.isIllegalOctal_of_digits hd ho h, if_pos rfl, if_pos rfl, hd,
        Number.digits_isLocal hd h]
    | false =>
      rw [ho, if_neg Bool.false_ne_true] at hs
      have hd : Number.decimal (b :: x ++ t) = b :: x := hs
      rw [Number.isIllegalOctal_of_decimal hd h, ho, if_neg Bool.false_ne_true,
        if_neg Bool.false_ne_true, hd, Number.decimal_isLocal hd h]

theorem afterDot_isLocal : IsLocal Byte.dot afterDot := by
  intro x t t' hs h
  unfold afterDot at hs ⊢
  cases hd : (x ++ t).head?.any Byte.isDigit with
  | true =>
    rw [if_pos hd] at hs
    have hp : Number.pointed (Byte.dot :: x ++ t) = Byte.dot :: x := hs
    -- The digit that was seen is part of the number, for the number takes all digits.
    have hd' : (x ++ t').head?.any Byte.isDigit = true := by
      cases x with
      | nil =>
        have hn : Number.digits t = [] := (List.append_eq_nil_iff.1 (List.cons.inj hp).2).1
        rw [List.nil_append, Span.run_eq_nil.1 hn] at hd
        cases hd
      | cons c x => exact hd
    have hp' : Number.pointed (Byte.dot :: (x ++ t')) = Byte.dot :: x :=
      Number.pointed_isLocal hp h
    rw [if_pos hd', if_pos rfl, hp', ← List.cons_append, hp]
  | false =>
    rw [hd, if_neg Bool.false_ne_true] at hs
    obtain rfl : x = [] := (List.cons.inj hs).2.symm
    have hd' : t'.head?.any Byte.isDigit = false := h.any_head? Byte.isSought_isDigit hd
    simp [hd']

/-! ## Comments and operators of several bytes -/

theorem lineComment_replace (opening : Bytes) {x t t' : Bytes}
    (hs : (lineComment opening (x ++ t)).source = opening ++ x)
    (h : Replaces (opening ++ x) t' t) :
    lineComment opening (x ++ t') = lineComment opening (x ++ t) := by
  have hl : Comment.line (x ++ t) = x := List.append_cancel_left hs
  rw [lineComment, lineComment, Comment.line_isLocal hl h.of_append, hl]

theorem blockComment_replace {x t t' : Bytes}
    (hs : (blockComment (x ++ t)).source = Byte.slash :: Byte.star :: x)
    (h : Replaces (Byte.slash :: Byte.star :: x) t' t) :
    blockComment (x ++ t') = blockComment (x ++ t) := by
  have hb : (Comment.block (x ++ t)).1 = x := by
    simpa [blockComment, verbatim] using hs
  have hr : Replaces x t' t := h.of_append (y := [_, _])
  rw [blockComment, blockComment, Comment.block_replace hb hr]

/-- What does not continue with `b` has another byte at its head, or none. -/
theorem head?_ne_of_forall {s : Bytes} {b : UInt8} (h : ∀ r, s = b :: r → False) :
    s.head? ≠ some b := by
  intro hs
  obtain ⟨r, hr⟩ := List.head?_eq_some_iff.1 hs
  exact h r hr

theorem afterSlash_cases (s : Bytes) :
    (∃ r, s = Byte.slash :: r ∧ afterSlash s = lineComment [Byte.slash, Byte.slash] r) ∨
    (∃ r, s = Byte.star :: r ∧ afterSlash s = blockComment r) ∨
    (s.head? ≠ some Byte.slash ∧ s.head? ≠ some Byte.star ∧
      afterSlash s = sign .divide [Byte.slash]) := by
  unfold afterSlash
  split
  · next r => exact .inl ⟨r, rfl, rfl⟩
  · next r => exact .inr (.inl ⟨r, rfl, rfl⟩)
  · next hslash hstar =>
    exact .inr (.inr ⟨head?_ne_of_forall hslash, head?_ne_of_forall hstar, rfl⟩)

theorem afterSlash_divide {s : Bytes} (hslash : s.head? ≠ some Byte.slash)
    (hstar : s.head? ≠ some Byte.star) : afterSlash s = sign .divide [Byte.slash] := by
  rcases afterSlash_cases s with ⟨r, rfl, -⟩ | ⟨r, rfl, -⟩ | ⟨-, -, hl⟩
  · exact absurd rfl hslash
  · exact absurd rfl hstar
  · exact hl

theorem afterSlash_isLocal : IsLocal Byte.slash afterSlash := by
  intro x t t' hs h
  -- A byte that was seen and taken is in `x`; one that was not taken is the head of `t`.
  rcases afterSlash_cases (x ++ t) with ⟨r, hr, hl⟩ | ⟨r, hr, hl⟩ | ⟨hslash, hstar, hl⟩
  · rw [hl] at hs
    obtain ⟨y, rfl⟩ : ∃ y, x = Byte.slash :: y := ⟨_, (List.cons.inj hs).2.symm⟩
    obtain rfl : y ++ t = r := (List.cons.inj hr).2
    exact lineComment_replace [_, _] hs h
  · rw [hl] at hs
    obtain ⟨y, rfl⟩ : ∃ y, x = Byte.star :: y := ⟨_, (List.cons.inj hs).2.symm⟩
    obtain rfl : y ++ t = r := (List.cons.inj hr).2
    exact blockComment_replace hs h
  · rw [hl] at hs ⊢
    obtain rfl : x = [] := (List.cons.inj hs).2.symm
    exact afterSlash_divide (h.head?_ne rfl hslash) (h.head?_ne rfl hstar)

theorem afterDash_cases (s : Bytes) :
    (∃ r, s = Byte.dash :: r ∧ afterDash s = lineComment [Byte.dash, Byte.dash] r) ∨
    (s.head? ≠ some Byte.dash ∧ afterDash s = sign .minus [Byte.dash]) := by
  unfold afterDash
  split
  · next r => exact .inl ⟨r, rfl, rfl⟩
  · next hdash => exact .inr ⟨head?_ne_of_forall hdash, rfl⟩

theorem afterDash_minus {s : Bytes} (hdash : s.head? ≠ some Byte.dash) :
    afterDash s = sign .minus [Byte.dash] := by
  rcases afterDash_cases s with ⟨r, rfl, -⟩ | ⟨-, hl⟩
  · exact absurd rfl hdash
  · exact hl

theorem afterDash_isLocal : IsLocal Byte.dash afterDash := by
  intro x t t' hs h
  rcases afterDash_cases (x ++ t) with ⟨r, hr, hl⟩ | ⟨hdash, hl⟩
  · rw [hl] at hs
    obtain ⟨y, rfl⟩ : ∃ y, x = Byte.dash :: y := ⟨_, (List.cons.inj hs).2.symm⟩
    obtain rfl : y ++ t = r := (List.cons.inj hr).2
    exact lineComment_replace [_, _] hs h
  · rw [hl] at hs ⊢
    obtain rfl : x = [] := (List.cons.inj hs).2.symm
    exact afterDash_minus (h.head?_ne rfl hdash)

theorem afterLess_cases (s : Bytes) :
    (∃ r, s = Byte.greater :: r ∧ afterLess s = sign .notEqual [Byte.less, Byte.greater]) ∨
    (∃ r, s = Byte.equals :: Byte.greater :: r ∧
      afterLess s = sign .nullSafeEqual [Byte.less, Byte.equals, Byte.greater]) ∨
    (∃ r, s = Byte.equals :: r ∧ r.head? ≠ some Byte.greater ∧
      afterLess s = sign .lessEqual [Byte.less, Byte.equals]) ∨
    (s.head? ≠ some Byte.greater ∧ s.head? ≠ some Byte.equals ∧
      afterLess s = sign .less [Byte.less]) := by
  unfold afterLess
  split
  · next r => exact .inl ⟨r, rfl, rfl⟩
  · next r => exact .inr (.inl ⟨r, rfl, rfl⟩)
  · next r hgreater => exact .inr (.inr (.inl ⟨r, rfl, head?_ne_of_forall hgreater, rfl⟩))
  · next hgreater _ hequals =>
    exact .inr (.inr (.inr ⟨head?_ne_of_forall hgreater, head?_ne_of_forall hequals, rfl⟩))

theorem afterLess_lessEqual {r : Bytes} (hgreater : r.head? ≠ some Byte.greater) :
    afterLess (Byte.equals :: r) = sign .lessEqual [Byte.less, Byte.equals] := by
  rcases afterLess_cases (Byte.equals :: r) with
    ⟨r, hr, -⟩ | ⟨r, hr, -⟩ | ⟨-, -, -, hl⟩ | ⟨-, hequals, -⟩
  · cases hr
  · cases hr
    exact absurd rfl hgreater
  · exact hl
  · exact absurd rfl hequals

theorem afterLess_less {s : Bytes} (hgreater : s.head? ≠ some Byte.greater)
    (hequals : s.head? ≠ some Byte.equals) : afterLess s = sign .less [Byte.less] := by
  rcases afterLess_cases s with ⟨r, rfl, -⟩ | ⟨r, rfl, -⟩ | ⟨r, rfl, -, -⟩ | ⟨-, -, hl⟩
  · exact absurd rfl hgreater
  · exact absurd rfl hequals
  · exact absurd rfl hequals
  · exact hl

theorem afterLess_isLocal : IsLocal Byte.less afterLess := by
  intro x t t' hs h
  rcases afterLess_cases (x ++ t) with
    ⟨r, hr, hl⟩ | ⟨r, hr, hl⟩ | ⟨r, hr, hgreater, hl⟩ | ⟨hgreater, hequals, hl⟩
  · rw [hl] at hs ⊢
    obtain rfl : x = [Byte.greater] := (List.cons.inj hs).2.symm
    rfl
  · rw [hl] at hs ⊢
    obtain rfl : x = [Byte.equals, Byte.greater] := (List.cons.inj hs).2.symm
    rfl
  · rw [hl] at hs ⊢
    obtain rfl : x = [Byte.equals] := (List.cons.inj hs).2.symm
    obtain rfl : t = r := (List.cons.inj hr).2
    exact afterLess_lessEqual (h.head?_ne rfl hgreater)
  · rw [hl] at hs ⊢
    obtain rfl : x = [] := (List.cons.inj hs).2.symm
    exact afterLess_less (h.head?_ne rfl hgreater) (h.head?_ne rfl hequals)

theorem afterGreater_cases (s : Bytes) :
    (∃ r, s = Byte.equals :: r ∧
      afterGreater s = sign .greaterEqual [Byte.greater, Byte.equals]) ∨
    (s.head? ≠ some Byte.equals ∧ afterGreater s = sign .greater [Byte.greater]) := by
  unfold afterGreater
  split
  · next r => exact .inl ⟨r, rfl, rfl⟩
  · next hequals => exact .inr ⟨head?_ne_of_forall hequals, rfl⟩

theorem afterGreater_greater {s : Bytes} (hequals : s.head? ≠ some Byte.equals) :
    afterGreater s = sign .greater [Byte.greater] := by
  rcases afterGreater_cases s with ⟨r, rfl, -⟩ | ⟨-, hl⟩
  · exact absurd rfl hequals
  · exact hl

theorem afterGreater_isLocal : IsLocal Byte.greater afterGreater := by
  intro x t t' hs h
  rcases afterGreater_cases (x ++ t) with ⟨r, hr, hl⟩ | ⟨hequals, hl⟩
  · rw [hl] at hs ⊢
    obtain rfl : x = [Byte.equals] := (List.cons.inj hs).2.symm
    rfl
  · rw [hl] at hs ⊢
    obtain rfl : x = [] := (List.cons.inj hs).2.symm
    exact afterGreater_greater (h.head?_ne rfl hequals)

theorem afterBang_cases (s : Bytes) :
    (∃ r, s = Byte.equals :: r ∧ afterBang s = sign .notEqual [Byte.bang, Byte.equals]) ∨
    (s.head? ≠ some Byte.equals ∧ afterBang s = verbatim .malformed [Byte.bang]) := by
  unfold afterBang
  split
  · next r => exact .inl ⟨r, rfl, rfl⟩
  · next hequals => exact .inr ⟨head?_ne_of_forall hequals, rfl⟩

theorem afterBang_malformed {s : Bytes} (hequals : s.head? ≠ some Byte.equals) :
    afterBang s = verbatim .malformed [Byte.bang] := by
  rcases afterBang_cases s with ⟨r, rfl, -⟩ | ⟨-, hl⟩
  · exact absurd rfl hequals
  · exact hl

theorem afterBang_isLocal : IsLocal Byte.bang afterBang := by
  intro x t t' hs h
  rcases afterBang_cases (x ++ t) with ⟨r, hr, hl⟩ | ⟨hequals, hl⟩
  · rw [hl] at hs ⊢
    obtain rfl : x = [Byte.equals] := (List.cons.inj hs).2.symm
    rfl
  · rw [hl] at hs ⊢
    obtain rfl : x = [] := (List.cons.inj hs).2.symm
    exact afterBang_malformed (h.head?_ne rfl hequals)

/-! ## Literals, and the whole lexeme -/

theorem quoted_isLocal (kind : TokenKind) {d : UInt8} (hquote : Byte.isQuote d = true) :
    IsLocal d (quoted kind d) := by
  intro x t t' hs h
  have hd := Byte.ne_backslash_of_isQuote hquote
  have hx : (Quoted.body d (x ++ t)).source d = x := (List.cons.inj hs).2
  by_cases hc : (Quoted.body d (x ++ t)).ending = .closed
  · -- It was not doubled, and `Replaces` keeps a new delimiter from doubling it.
    have ht : t.head? ≠ some d := Quoted.head?_ne_of_closed hd hc (by rw [hx])
    have hlast : (d :: x).getLast? = some d := by
      rw [← hx, Quoted.Body.source, hc]
      simp [Quoted.Ending.source, List.getLast?_cons]
    have ht' : t'.head? ≠ some d := by
      intro ht'
      rcases h.head d ht' with hb | ⟨-, hl⟩
      · exact ht hb
      · exact hl hquote hlast
    have hbody := Quoted.body_source_append hd hc ht'
    rw [hx] at hbody
    rw [quoted, quoted, hbody]
  · -- What is not closed takes the rest of the input: nothing is there to replace.
    have hall := Quoted.source_of_open hc
    rw [hx] at hall
    obtain rfl : t = [] := List.append_right_eq_self.1 hall.symm
    rw [h.nil rfl]

/-- **Lookahead**: the lexeme that is read does not change when what follows it is
    replaced. -/
theorem read_isLocal (b : UInt8) : IsLocal b (read b) := by
  have hb := Opening.announces_of b
  intro x t t' hs h
  unfold read at hs ⊢
  generalize Opening.of b = opening at hb hs ⊢
  cases opening with
  | letter => exact word_isLocal b hs h
  | digit => exact number_isLocal b hs h
  | colon => cases hb; exact named_isLocal hs h
  | single op => rfl
  | question => rfl
  | dot => cases hb; exact afterDot_isLocal hs h
  | slash => cases hb; exact afterSlash_isLocal hs h
  | dash => cases hb; exact afterDash_isLocal hs h
  | less => cases hb; exact afterLess_isLocal hs h
  | greater => cases hb; exact afterGreater_isLocal hs h
  | bang => cases hb; exact afterBang_isLocal hs h
  | delimiter kind =>
    have hquote : Byte.isQuote b = true := by
      rcases hb with ⟨rfl | rfl, -⟩ | ⟨rfl, -⟩ <;> rfl
    exact quoted_isLocal kind hquote hs h
  | stray => rfl

end Lexeme

/-! ## Segments -/

/-- **Replacement**: the segments that are cut from the head of an input do not change
    when what follows them is replaced. -/
theorem Cuts.replace {gs gs₁ gs₂ : List Segment} {t t' : Bytes}
    (h : Cuts (Segment.join gs ++ t) (gs ++ gs₁)) (hr : Replaces (Segment.join gs) t' t)
    (ht' : Cuts t' gs₂) : Cuts (Segment.join gs ++ t') (gs ++ gs₂) := by
  induction gs with
  | nil => exact ht'
  | cons g gs ih =>
    -- For the first segment, all that follows it is what is replaced.
    generalize hs : Segment.join (g :: gs) ++ t = s at h
    cases h with
    | @lexeme blanks more tail b _ hblanks hb hsource ht =>
      simp only [Segment.join_cons, hsource, List.append_assoc] at hs hr ⊢
      obtain rfl : Segment.join gs ++ t = tail := by
        simpa using List.append_cancel_left hs
      have hrest : Replaces (b :: more ++ Segment.join gs) t' t := hr.of_append
      have hread := Lexeme.read_isLocal b hsource (hrest.append rfl)
      rw [← hread] at hsource ⊢
      exact .lexeme hblanks hb hsource (ih ht hrest.of_append)

end SqlTokens
