import SqlTokens.Proofs.Prefix

/-! # Replacements

    What follows a part of the input may be exchanged, as far as that part is
    concerned, for anything that starts with the same byte, and also for anything
    that starts with an inert byte, one that no rule looks for.  Blanks are inert,
    and so is a quote, except behind the quote that closes a literal.

    * **Replacement**: `Replaces source t' t` — `t'` may stand behind `source` in the
      place of `t`.
    * **Spans**: `Span.IsLocal`, which is kept when spans are put together, and
      holds of all parts of a number and of the rest of a line.
    * **Block comments**: `Comment.block_replace`. -/

namespace SqlTokens

namespace Byte

/-! ## Inert bytes -/

/-- A byte that no rule looks for behind its lexeme, unless as the delimiter of a
    literal. -/
def isInert (b : UInt8) : Bool :=
  !(isNameByte b || isSign b || b == slash || b == star || b == greater || b == equals)

/-- A delimiter of literals: writing it twice does not end the literal. -/
def isQuote (b : UInt8) : Bool :=
  b == quote || b == doubleQuote || b == backtick

theorem isQuote_cases {d : UInt8} (h : isQuote d = true) :
    d = quote ∨ d = doubleQuote ∨ d = backtick := by
  simpa [isQuote, or_assoc] using h

theorem ne_backslash_of_isQuote {d : UInt8} (h : isQuote d = true) : d ≠ backslash := by
  rintro rfl
  cases h

theorem isBlank_of_isQuote {d : UInt8} (h : isQuote d = true) : isBlank d = false := by
  rcases isQuote_cases h with rfl | rfl | rfl <;> rfl

theorem isInert_of_isBlank {b : UInt8} (h : isBlank b = true) : isInert b = true := by
  simp only [isBlank, Bool.or_eq_true, beq_iff_eq] at h
  rcases h with ((rfl | rfl) | rfl) | rfl <;> rfl

/-- A class that some rule looks for behind its lexeme: none of its bytes is inert. -/
def IsSought (p : UInt8 → Bool) : Prop :=
  ∀ b, isInert b = true → p b = false

theorem IsSought.mono {p q : UInt8 → Bool} (hq : IsSought q) (h : ∀ b, p b = true → q b = true) :
    IsSought p := by
  intro b hb
  have hqb := hq b hb
  cases hp : p b with
  | false => rfl
  | true => rw [h b hp] at hqb; exact hqb

/-- A byte of such a class is no blank. -/
theorem IsSought.isBlank {p : UInt8 → Bool} (hp : IsSought p) {b : UInt8} (hb : p b = true) :
    isBlank b = false := by
  refine Bool.eq_false_iff.2 fun hblank => ?_
  rw [hp b (isInert_of_isBlank hblank)] at hb
  cases hb

theorem isSought_isNameByte : IsSought isNameByte := by
  intro b hb
  simp only [isInert, Bool.not_eq_true', Bool.or_eq_false_iff] at hb
  exact hb.1.1.1.1.1

theorem isSought_isSign : IsSought isSign := by
  intro b hb
  simp only [isInert, Bool.not_eq_true', Bool.or_eq_false_iff] at hb
  exact hb.1.1.1.1.2

theorem isSought_isWordByte : IsSought isWordByte :=
  isSought_isNameByte.mono fun b hb => by rw [isNameByte, hb, Bool.true_or]

theorem isSought_isLetter : IsSought isLetter :=
  isSought_isWordByte.mono fun b hb => by rw [isWordByte, hb, Bool.true_or]

theorem isSought_isDigit : IsSought isDigit :=
  isSought_isWordByte.mono fun b hb => by rw [isWordByte, hb, Bool.or_true]

theorem isSought_isHexDigit : IsSought isHexDigit :=
  isSought_isWordByte.mono fun b hb => by
    simp only [isHexDigit, digitValue] at hb
    grind [isWordByte, isLetter, isDigit, UInt8.le_iff_toNat_le]

theorem isSought_isExponentMark : IsSought isExponentMark :=
  isSought_isWordByte.mono fun b hb => by
    simp only [isExponentMark, Bool.or_eq_true, beq_iff_eq] at hb
    rcases hb with rfl | rfl <;> rfl

theorem isSought_isRadixMark : IsSought isRadixMark :=
  isSought_isWordByte.mono fun b hb => by
    simp only [isRadixMark, Bool.or_eq_true, beq_iff_eq] at hb
    rcases hb with rfl | rfl <;> rfl

theorem isSought_eq {c : UInt8} (hc : isInert c = false) : IsSought (· == c) := by
  intro b hb
  refine beq_false_of_ne fun hbc => ?_
  rw [hbc, hc] at hb
  cases hb

end Byte

/-! ## Replacements -/

/-- `t'` may stand behind `source` in the place of `t`: it is over where `t` is, and
    it starts with the same byte or with one that cannot go on with `source`. -/
structure Replaces (source t' t : Bytes) : Prop where
  nil : t = [] → t' = []
  head : ∀ b, t'.head? = some b → t.head? = some b ∨
    Byte.isInert b = true ∧ (Byte.isQuote b = true → source.getLast? ≠ some b)

namespace Replaces

/-- It is enough that the next byte is the same, or that there is none either. -/
theorem of_head?_eq {t' t : Bytes} (h : t'.head? = t.head?) (source : Bytes) :
    Replaces source t' t := by
  constructor
  · rintro rfl
    exact List.head?_eq_none_iff.1 h
  · intro b hb
    exact .inl (h ▸ hb)

/-- A blank goes on with no lexeme, so it may come next instead of any other byte. -/
theorem of_isBlank {b : UInt8} (hb : Byte.isBlank b = true) {t : Bytes} (ht : t ≠ [])
    (source s : Bytes) : Replaces source (b :: s) t := by
  refine ⟨fun hnil => absurd hnil ht, ?_⟩
  intro c hc
  obtain rfl : b = c := Option.some.inj hc
  refine .inr ⟨Byte.isInert_of_isBlank hb, fun hquote => ?_⟩
  rw [Byte.isBlank_of_isQuote hquote] at hb
  cases hb

theorem append {source t' t : Bytes} (h : Replaces source t' t) {x y : Bytes}
    (hs : source = y ++ x) : Replaces y (x ++ t') (x ++ t) := by
  cases x with
  | nil =>
    rw [List.append_nil] at hs
    exact hs ▸ h
  | cons b x => exact ⟨by simp, fun c hc => .inl hc⟩

theorem of_append {y x t' t : Bytes} (h : Replaces (y ++ x) t' t) : Replaces x t' t := by
  refine ⟨h.nil, fun b hb => (h.head b hb).imp id fun ⟨hi, hl⟩ => ⟨hi, fun hq hx => hl hq ?_⟩⟩
  rw [List.getLast?_append, hx]
  rfl

/-- A byte that is not inert and did not come next does not come next now. -/
theorem head?_ne {source t' t : Bytes} (h : Replaces source t' t) {b : UInt8}
    (hb : Byte.isInert b = false) (ht : t.head? ≠ some b) : t'.head? ≠ some b := by
  intro ht'
  rcases h.head b ht' with ht'' | ⟨hi, -⟩
  · exact ht ht''
  · rw [hi] at hb
    cases hb

/-- If the byte that came next was not of a class, the one that comes next now is not. -/
theorem any_head? {source t' t : Bytes} (h : Replaces source t' t) {p : UInt8 → Bool}
    (hp : Byte.IsSought p) (ht : t.head?.any p = false) : t'.head?.any p = false := by
  cases ht' : t'.head? with
  | none => rfl
  | some b =>
    rcases h.head b ht' with hb | ⟨hi, -⟩
    · rwa [hb] at ht
    · exact hp b hi

end Replaces

/-! ## Spans -/

namespace Span

/-- What a span takes does not change when what follows it is replaced. -/
def IsLocal (span : Span) : Prop :=
  ∀ {x t t' : Bytes}, span (x ++ t) = x → Replaces x t' t → span (x ++ t') = x

/-- A span that ends within `x` takes the same when what follows `x` is replaced. -/
theorem IsLocal.eq_of_prefix {span : Span} (hs : span.IsLocal) {x t t' : Bytes}
    (hx : span (x ++ t) <+: x) (h : Replaces x t' t) : span (x ++ t') = span (x ++ t) := by
  obtain ⟨z, hz⟩ := hx
  generalize hy : span (x ++ t) = y at hz ⊢
  subst hz
  rw [List.append_assoc] at hy ⊢
  exact hs hy (h.append rfl)

theorem run_eq_nil {p : UInt8 → Bool} {s : Bytes} : run p s = [] ↔ s.head?.any p = false := by
  cases s with
  | nil => simp [run]
  | cons b s => cases h : p b <;> simp [run, h]

theorem run_isLocal {p : UInt8 → Bool} (hp : Byte.IsSought p) :
    (run p).IsLocal := by
  intro x t t' hx h
  have hall : ∀ b ∈ x, p b = true := by
    rw [← hx]
    exact List.all_eq_true.1 List.all_takeWhile
  -- The run ended where `x` does, because `t` does not go on with it.
  have ht : run p t = [] := by
    rw [run, List.takeWhile_append_of_pos hall] at hx
    exact List.append_right_eq_self.1 hx
  have ht' : run p t' = [] := run_eq_nil.2 (h.any_head? hp (run_eq_nil.1 ht))
  rw [run, List.takeWhile_append_of_pos hall]
  exact List.append_right_eq_self.2 ht'

theorem one_eq_nil {p : UInt8 → Bool} {s : Bytes} : one p s = [] ↔ s.head?.any p = false := by
  cases s with
  | nil => simp [one]
  | cons b s => cases h : p b <;> simp [one, h]

theorem one_isLocal {p : UInt8 → Bool} (hp : Byte.IsSought p) :
    (one p).IsLocal := by
  intro x t t' hx h
  cases x with
  | nil => exact one_eq_nil.2 (h.any_head? hp (one_eq_nil.1 hx))
  | cons b x =>
    simp only [List.cons_append, one] at hx ⊢
    exact hx

theorem opened_eq_nil {p : UInt8 → Bool} {more : Span} {s : Bytes} :
    opened p more s = [] ↔ s.head?.any p = false := by
  cases s with
  | nil => simp [opened]
  | cons b s => cases h : p b <;> simp [opened, h]

theorem opened_isLocal {p : UInt8 → Bool} (hp : Byte.IsSought p)
    {more : Span} (hm : more.IsLocal) : (opened p more).IsLocal := by
  intro x t t' hx h
  cases x with
  | nil => exact opened_eq_nil.2 (h.any_head? hp (opened_eq_nil.1 hx))
  | cons b x =>
    simp only [List.cons_append, opened] at hx ⊢
    cases hb : p b with
    | false => simp [hb] at hx
    | true =>
      simp only [hb, if_true, List.cons.injEq, true_and] at hx ⊢
      exact hm hx (h.of_append (y := [b]))

theorem followedBy_isLocal {first second : Span} (h₁ : first.IsLocal) (h₂ : second.IsLocal)
    (hp : ∀ s, first s <+: s) : (first.followedBy second).IsLocal := by
  intro x t t' hx h
  obtain ⟨rest, hrest⟩ := hp (x ++ t)
  obtain ⟨y, hy⟩ : ∃ y, first (x ++ t) = y := ⟨_, rfl⟩
  rw [followedBy, hy] at hx
  rw [hy] at hrest
  obtain ⟨z, hz⟩ : ∃ z, second ((x ++ t).drop y.length) = z := ⟨_, rfl⟩
  rw [hz] at hx
  subst hx
  -- For the first span the replacement lies behind `z`, for the second behind both.
  rw [List.append_assoc] at hrest hy hz ⊢
  rw [List.drop_left] at hz
  have hfirst := h₁ hy (h.append rfl)
  have hsecond := h₂ hz h.of_append
  rw [followedBy, hfirst, List.drop_left, hsecond]

end Span

namespace Number

theorem digits_isLocal : Span.IsLocal digits :=
  Span.run_isLocal Byte.isSought_isDigit

theorem fraction_isLocal : Span.IsLocal fraction :=
  Span.opened_isLocal (Byte.isSought_eq rfl) digits_isLocal

theorem exponent_isLocal : Span.IsLocal exponent :=
  Span.opened_isLocal Byte.isSought_isExponentMark
    (Span.followedBy_isLocal (Span.one_isLocal Byte.isSought_isSign) digits_isLocal
      (Span.one_isPrefix _))

theorem pointed_isLocal : Span.IsLocal pointed :=
  Span.followedBy_isLocal fraction_isLocal exponent_isLocal fraction_isPrefix

theorem decimal_isLocal : Span.IsLocal decimal :=
  Span.followedBy_isLocal digits_isLocal pointed_isLocal (Span.run_isPrefix _)

theorem hexadecimal_isLocal : Span.IsLocal hexadecimal :=
  Span.opened_isLocal (Byte.isSought_eq rfl)
    (Span.opened_isLocal Byte.isSought_isRadixMark (Span.run_isLocal Byte.isSought_isHexDigit))

/-! ### Which rule reads a number -/

theorem startsHexadecimal_iff {s : Bytes} :
    startsHexadecimal s = true ↔ 2 ≤ (hexadecimal s).length := by
  match s with
  | [] => simp [startsHexadecimal, hexadecimal, Span.opened]
  | [b] => cases hb : b == Byte.zero <;> simp [startsHexadecimal, hexadecimal, Span.opened, hb]
  | b :: c :: s =>
    cases hb : b == Byte.zero <;> cases hc : Byte.isRadixMark c <;>
      simp [startsHexadecimal, hexadecimal, Span.opened, hb, hc]

theorem startsFraction_eq (s : Bytes) :
    startsFraction s = (s.head?.any (· == Byte.dot) || s.head?.any Byte.isExponentMark) := by
  cases s <;> rfl

theorem pointed_eq_nil {s : Bytes} : pointed s = [] ↔ startsFraction s = false := by
  rw [startsFraction_eq, Bool.or_eq_false_iff]
  constructor
  · intro h
    obtain ⟨hf, he⟩ := List.append_eq_nil_iff.1 h
    rw [hf, List.length_nil, List.drop_zero] at he
    exact ⟨Span.opened_eq_nil.1 hf, Span.opened_eq_nil.1 he⟩
  · rintro ⟨hf, he⟩
    have hfraction : fraction s = [] := Span.opened_eq_nil.2 hf
    rw [pointed, Span.followedBy, hfraction]
    exact Span.opened_eq_nil.2 he

theorem startsFraction_replace {source t' t : Bytes} (h : Replaces source t' t)
    (ht : startsFraction t = false) : startsFraction t' = false := by
  rw [startsFraction_eq, Bool.or_eq_false_iff] at ht ⊢
  exact ⟨h.any_head? (Byte.isSought_eq rfl) ht.1, h.any_head? Byte.isSought_isExponentMark ht.2⟩

/-- A number starts like one of radix sixteen or does not, whatever follows it. -/
theorem startsHexadecimal_replace {b : UInt8} {x t t' : Bytes} (h : Replaces (b :: x) t' t)
    (hx : startsHexadecimal (b :: x ++ t) = true → hexadecimal (b :: x ++ t) = b :: x) :
    startsHexadecimal (b :: x ++ t') = startsHexadecimal (b :: x ++ t) := by
  -- What the span for radix sixteen takes lies within the number: it is all of it, or
  -- no more than the first byte.
  have hp : hexadecimal (b :: x ++ t) <+: b :: x := by
    cases hs : startsHexadecimal (b :: x ++ t) with
    | true => exact ⟨[], by rw [hx hs, List.append_nil]⟩
    | false =>
      have hlen : ¬2 ≤ (hexadecimal (b :: x ++ t)).length := by
        rw [← startsHexadecimal_iff, hs]
        exact Bool.false_ne_true
      refine List.prefix_of_prefix_length_le (hexadecimal_isPrefix _) (List.prefix_append _ _) ?_
      simp only [List.length_cons]
      omega
  have hh := hexadecimal_isLocal.eq_of_prefix hp h
  rw [Bool.eq_iff_iff, startsHexadecimal_iff, startsHexadecimal_iff, hh]

/-- The digits of a number that are all of it, or are followed by more of it, are
    of radix eight as much or as little when what follows the number is replaced. -/
theorem isIllegalOctal_replace {y z t t' : Bytes} (hy : digits (y ++ (z ++ t)) = y)
    (hz : z = [] → startsFraction t = false) (h : Replaces (y ++ z) t' t) :
    isIllegalOctal (y ++ (z ++ t')) = isIllegalOctal (y ++ (z ++ t)) := by
  have hy' : digits (y ++ (z ++ t')) = y := digits_isLocal hy (h.append rfl)
  have hf : startsFraction (z ++ t') = startsFraction (z ++ t) := by
    cases z with
    | nil => exact (startsFraction_replace h (hz rfl)).trans (hz rfl).symm
    | cons b z => rfl
  rw [isIllegalOctal, isIllegalOctal, hy, hy', List.drop_left, List.drop_left, hf]

theorem isIllegalOctal_of_digits {x t t' : Bytes} (hd : digits (x ++ t) = x)
    (ho : isIllegalOctal (x ++ t) = true) (h : Replaces x t' t) :
    isIllegalOctal (x ++ t') = true := by
  have hf : startsFraction t = false := by
    simp only [isIllegalOctal, hd, List.drop_left, Bool.and_eq_true, Bool.not_eq_true'] at ho
    exact ho.2
  rw [← List.append_nil x] at h
  exact (isIllegalOctal_replace (z := []) hd (fun _ => hf) h).trans ho

theorem isIllegalOctal_of_decimal {x t t' : Bytes} (hd : decimal (x ++ t) = x)
    (h : Replaces x t' t) : isIllegalOctal (x ++ t') = isIllegalOctal (x ++ t) := by
  obtain ⟨z, hz⟩ : digits (x ++ t) <+: x := ⟨_, hd⟩
  generalize hy : digits (x ++ t) = y at hz
  subst hz
  have hf : z = [] → startsFraction t = false := by
    rintro rfl
    rw [decimal, Span.followedBy, hy, List.append_nil, List.drop_left] at hd
    exact pointed_eq_nil.1 (List.append_right_eq_self.1 hd)
  rw [List.append_assoc] at hy ⊢
  rw [List.append_assoc]
  exact isIllegalOctal_replace hy hf h

end Number

/-! ## Comments -/

namespace Comment

theorem line_cons (b : UInt8) (s : Bytes) :
    line (b :: s) = if b = Byte.newline then [b] else b :: line s := by
  by_cases h : b = Byte.newline
  · simp [line, h]
  · simp [line, h]

/-- The rest of a line does not change when what follows it is replaced. -/
theorem line_isLocal : Span.IsLocal line := by
  intro x t t' hx h
  induction x with
  | nil =>
    -- A line is only empty at the end of the input.
    cases t with
    | nil => rw [h.nil rfl]; rfl
    | cons b t =>
      rw [List.nil_append, line_cons] at hx
      split at hx <;> cases hx
  | cons b x ih =>
    rw [List.cons_append, line_cons] at hx ⊢
    split at hx
    · next hb =>
      obtain rfl : x = [] := (List.cons.inj hx).2.symm
      rw [if_pos hb]
    · next hb =>
      rw [if_neg hb, ih (List.cons.inj hx).2 (h.of_append (y := [b]))]

theorem blockOnto_eq (read : Bytes) :
    ∀ s : Bytes, blockOnto read s = (read.reverse ++ (block s).1, (block s).2)
  | [] => by simp [block, blockOnto]
  | [b] => by simp [block, blockOnto]
  | b :: c :: rest => by
    have h := blockOnto_eq (b :: read) (c :: rest)
    have h' := blockOnto_eq [b] (c :: rest)
    rw [block, blockOnto, blockOnto]
    split
    · simp
    · rw [h, h']
      simp

theorem block_cons_cons (b c : UInt8) (s : Bytes) :
    block (b :: c :: s) =
      if b = Byte.star ∧ c = Byte.slash then ([b, c], true)
      else (b :: (block (c :: s)).1, (block (c :: s)).2) := by
  rw [block, blockOnto]
  by_cases h : b = Byte.star ∧ c = Byte.slash
  · simp [h]
  · have hb : ¬(b == Byte.star && c == Byte.slash) = true := by simpa using h
    rw [if_neg hb, if_neg h, blockOnto_eq]
    simp

theorem block_eq_nil {s : Bytes} (h : (block s).1 = []) : s = [] := by
  match s with
  | [] => rfl
  | [b] => cases h
  | b :: c :: s =>
    rw [block_cons_cons] at h
    split at h <;> cases h

/-- A block comment does not change when what follows it is replaced. -/
theorem block_replace {x t t' : Bytes} (hx : (block (x ++ t)).1 = x) (h : Replaces x t' t) :
    block (x ++ t') = block (x ++ t) := by
  induction x with
  | nil => rw [List.nil_append, block_eq_nil hx, h.nil (block_eq_nil hx)]
  | cons b x ih =>
    cases x with
    | nil =>
      -- A comment of one byte is one that the input ends.
      cases t with
      | nil => rw [h.nil rfl]
      | cons c t =>
        simp only [List.cons_append, List.nil_append, block_cons_cons] at hx
        split at hx
        · cases hx
        · exact absurd (block_eq_nil (List.cons.inj hx).2) (by simp)
    | cons c x =>
      simp only [List.cons_append, block_cons_cons] at hx ⊢
      split at hx
      · next hb => rw [if_pos hb, if_pos hb]
      · next hb =>
        have hx' := ih (List.cons.inj hx).2 (h.of_append (y := [b]))
        rw [if_neg hb, if_neg hb]
        simp only [List.cons_append] at hx'
        rw [hx']

end Comment

end SqlTokens
