import SqlTokens.Proofs.Lookahead

/-! # Lower case

    No rule of the lexer tells upper from lower case: every class of bytes has both
    forms of a letter or none, and words are looked up in lower case.  So a rule takes
    as much of an input in lower case, and finds the same there.

    * **Classes**: `Byte.IsCaseless`.
    * **Spans**: `Span.IsCaseless`, which is kept when spans are put together.
    * **Literals**: `Quoted.body_lower` — each item by itself, the codes of escapes among
      them, and the same end.
    * **Lexemes**: `Lexeme.read_lowers` — rule by rule, and then the whole lexeme. -/

namespace SqlTokens

/-! ## Bytes -/

namespace Byte

/-- A property of all bytes, checked one by one. -/
theorem forall_of_lt {P : UInt8 → Prop} (h : ∀ n, n < 256 → P (UInt8.ofNat n)) (b : UInt8) :
    P b := by
  have hb := h b.toNat (UInt8.toNat_lt b)
  rwa [UInt8.ofNat_toNat] at hb

/-- The lower-case form of a byte is its own, and no class tells the two apart. -/
theorem classes_toLower :
    ∀ b, toLower (toLower b) = toLower b ∧ isLetter (toLower b) = isLetter b ∧
      isDigit (toLower b) = isDigit b ∧ isHexDigit (toLower b) = isHexDigit b ∧
      isExponentMark (toLower b) = isExponentMark b ∧ isRadixMark (toLower b) = isRadixMark b :=
  forall_of_lt (by decide +kernel)

theorem toLower_toLower (b : UInt8) : toLower (toLower b) = toLower b :=
  (classes_toLower b).1

theorem toLower_of_not_isLetter {b : UInt8} (h : isLetter b = false) : toLower b = b := by
  refine if_neg fun hupper => ?_
  simp [isLetter, hupper] at h

/-- A class that has both forms of a letter, or none. -/
def IsCaseless (p : UInt8 → Bool) : Prop :=
  ∀ b, p (toLower b) = p b

theorem isCaseless_isLetter : IsCaseless isLetter :=
  fun b => (classes_toLower b).2.1

theorem isCaseless_isDigit : IsCaseless isDigit :=
  fun b => (classes_toLower b).2.2.1

theorem isCaseless_isHexDigit : IsCaseless isHexDigit :=
  fun b => (classes_toLower b).2.2.2.1

theorem isCaseless_isExponentMark : IsCaseless isExponentMark :=
  fun b => (classes_toLower b).2.2.2.2.1

theorem isCaseless_isRadixMark : IsCaseless isRadixMark :=
  fun b => (classes_toLower b).2.2.2.2.2

/-- No form of a letter is a byte that is no letter. -/
theorem toLower_eq_iff {c : UInt8} (hc : isLetter c = false) (b : UInt8) :
    toLower b = c ↔ b = c := by
  cases hb : isLetter b with
  | false => rw [toLower_of_not_isLetter hb]
  | true =>
    have hlower : isLetter (toLower b) = true := by rw [isCaseless_isLetter, hb]
    constructor
    · rintro rfl
      rw [hlower] at hc
      cases hc
    · rintro rfl
      rw [hb] at hc
      cases hc

theorem beq_toLower (c : UInt8) (hc : isLetter c = false) (b : UInt8) :
    (toLower b == c) = (b == c) := by
  rw [Bool.eq_iff_iff, beq_iff_eq, beq_iff_eq, toLower_eq_iff hc]

theorem isCaseless_eq {c : UInt8} (hc : isLetter c = false) : IsCaseless (· == c) :=
  beq_toLower c hc

/-! Classes that are put together from others -/

theorem isCaseless_isBlank : IsCaseless isBlank := by
  intro b
  rw [isBlank, isBlank, beq_toLower 0x20 rfl, beq_toLower newline rfl, beq_toLower 0x0d rfl,
    beq_toLower 0x09 rfl]

theorem isCaseless_isSign : IsCaseless isSign := by
  intro b
  rw [isSign, isSign, beq_toLower plus rfl, beq_toLower dash rfl]

theorem isCaseless_isQuote : IsCaseless isQuote := by
  intro b
  rw [isQuote, isQuote, beq_toLower quote rfl, beq_toLower doubleQuote rfl,
    beq_toLower backtick rfl]

theorem isCaseless_isWordByte : IsCaseless isWordByte := by
  intro b
  rw [isWordByte, isWordByte, isCaseless_isLetter, isCaseless_isDigit]

theorem isCaseless_isNameByte : IsCaseless isNameByte := by
  intro b
  rw [isNameByte, isNameByte, isCaseless_isWordByte, beq_toLower dot rfl]

end Byte

/-- The bytes with each letter in lower case. -/
def lower (s : Bytes) : Bytes :=
  s.map Byte.toLower

@[simp] theorem lower_nil : lower [] = [] := rfl

@[simp] theorem lower_cons (b : UInt8) (s : Bytes) :
    lower (b :: s) = Byte.toLower b :: lower s := rfl

@[simp] theorem lower_append (s s' : Bytes) : lower (s ++ s') = lower s ++ lower s' :=
  List.map_append

@[simp] theorem length_lower (s : Bytes) : (lower s).length = s.length :=
  List.length_map _

@[simp] theorem lower_lower (s : Bytes) : lower (lower s) = lower s := by
  rw [lower, lower, List.map_map]
  exact List.map_congr_left fun b _ => Byte.toLower_toLower b

theorem lower_take (s : Bytes) (n : Nat) : lower (s.take n) = (lower s).take n :=
  List.map_take

theorem lower_drop (s : Bytes) (n : Nat) : lower (s.drop n) = (lower s).drop n :=
  List.map_drop

theorem any_head?_lower {p : UInt8 → Bool} (hp : Byte.IsCaseless p) (s : Bytes) :
    (lower s).head?.any p = s.head?.any p := by
  cases s with
  | nil => rfl
  | cons b s => exact hp b

theorem head?_lower_eq_iff {c : UInt8} (hc : Byte.isLetter c = false) (s : Bytes) :
    (lower s).head? = some c ↔ s.head? = some c := by
  cases s with
  | nil => rfl
  | cons b s => simp [Byte.toLower_eq_iff hc]

/-! ## Spans -/

namespace Span

/-- A span that takes as much of the same bytes in lower case. -/
def IsCaseless (span : Span) : Prop :=
  ∀ s, span (lower s) = lower (span s)

theorem run_isCaseless {p : UInt8 → Bool} (hp : Byte.IsCaseless p) : (run p).IsCaseless := by
  intro s
  rw [run, lower, List.takeWhile_map, funext hp (f := p ∘ Byte.toLower)]
  rfl

theorem one_isCaseless {p : UInt8 → Bool} (hp : Byte.IsCaseless p) : (one p).IsCaseless := by
  intro s
  cases s with
  | nil => rfl
  | cons b s => cases hb : p b <;> simp [one, hp b, hb]

theorem opened_isCaseless {p : UInt8 → Bool} (hp : Byte.IsCaseless p) {more : Span}
    (hm : more.IsCaseless) : (opened p more).IsCaseless := by
  intro s
  cases s with
  | nil => rfl
  | cons b s => cases hb : p b <;> simp [opened, hp b, hb, hm s]

theorem followedBy_isCaseless {first second : Span} (h₁ : first.IsCaseless)
    (h₂ : second.IsCaseless) : (first.followedBy second).IsCaseless := by
  intro s
  rw [followedBy, followedBy, h₁, length_lower, ← lower_drop, h₂, lower_append]

end Span

namespace Number

theorem digits_isCaseless : Span.IsCaseless digits :=
  Span.run_isCaseless Byte.isCaseless_isDigit

theorem fraction_isCaseless : Span.IsCaseless fraction :=
  Span.opened_isCaseless (Byte.isCaseless_eq rfl) digits_isCaseless

theorem exponent_isCaseless : Span.IsCaseless exponent :=
  Span.opened_isCaseless Byte.isCaseless_isExponentMark
    (Span.followedBy_isCaseless (Span.one_isCaseless Byte.isCaseless_isSign) digits_isCaseless)

theorem pointed_isCaseless : Span.IsCaseless pointed :=
  Span.followedBy_isCaseless fraction_isCaseless exponent_isCaseless

theorem decimal_isCaseless : Span.IsCaseless decimal :=
  Span.followedBy_isCaseless digits_isCaseless pointed_isCaseless

theorem hexadecimal_isCaseless : Span.IsCaseless hexadecimal :=
  Span.opened_isCaseless (Byte.isCaseless_eq rfl)
    (Span.opened_isCaseless Byte.isCaseless_isRadixMark
      (Span.run_isCaseless Byte.isCaseless_isHexDigit))

/-! ### Which rule reads a number -/

theorem startsHexadecimal_lower (s : Bytes) :
    startsHexadecimal (lower s) = startsHexadecimal s := by
  rw [Bool.eq_iff_iff, startsHexadecimal_iff, startsHexadecimal_iff, hexadecimal_isCaseless,
    length_lower]

theorem startsFraction_lower (s : Bytes) : startsFraction (lower s) = startsFraction s := by
  rw [startsFraction_eq, startsFraction_eq, any_head?_lower (Byte.isCaseless_eq rfl),
    any_head?_lower Byte.isCaseless_isExponentMark]

theorem isIllegalOctal_lower (s : Bytes) : isIllegalOctal (lower s) = isIllegalOctal s := by
  have hzero : ((lower (digits s)).head? == some Byte.zero) =
      ((digits s).head? == some Byte.zero) := by
    rw [Bool.eq_iff_iff, beq_iff_eq, beq_iff_eq, head?_lower_eq_iff rfl]
  have hany : ((lower (digits s)).any fun d => d == 0x38 || d == 0x39) =
      (digits s).any fun d => d == 0x38 || d == 0x39 := by
    rw [lower, List.any_map]
    congr 1
    funext b
    rw [Function.comp_apply, Byte.beq_toLower 0x38 rfl, Byte.beq_toLower 0x39 rfl]
  rw [isIllegalOctal, isIllegalOctal, digits_isCaseless, hzero, hany, length_lower, ← lower_drop,
    startsFraction_lower]

end Number

namespace Comment

theorem line_isCaseless : Span.IsCaseless line := by
  have hrun : Span.IsCaseless (Span.run (· != Byte.newline)) := by
    apply Span.run_isCaseless
    intro b
    exact congrArg (! ·) (Byte.beq_toLower Byte.newline rfl b)
  intro s
  have htake := hrun s
  rw [Span.run] at htake
  rw [line, line, htake, length_lower, ← lower_drop, ← lower_take, lower_append]

theorem block_lower (s : Bytes) : block (lower s) = (lower (block s).1, (block s).2) := by
  induction s with
  | nil => rfl
  | cons b s ih =>
    cases s with
    | nil => rfl
    | cons c s =>
      have hends : Byte.toLower b = Byte.star ∧ Byte.toLower c = Byte.slash ↔
          b = Byte.star ∧ c = Byte.slash :=
        and_congr (Byte.toLower_eq_iff rfl b) (Byte.toLower_eq_iff rfl c)
      rw [lower_cons] at ih
      rw [lower_cons, lower_cons, block_cons_cons, block_cons_cons]
      by_cases h : b = Byte.star ∧ c = Byte.slash
      · rw [if_pos (hends.2 h), if_pos h]
        rfl
      · rw [if_neg (mt hends.1 h), if_neg h, ih]
        rfl

end Comment

/-! ## Literals -/

namespace Quoted

/-- The item that is written with the same bytes in lower case. -/
def Item.lower : Item → Item
  | .plain b => .plain (Byte.toLower b)
  | .doubled => .doubled
  | .escaped code => .escaped (Byte.toLower code)

variable {d : UInt8}

theorem Item.source_lower (hd : Byte.isLetter d = false) (item : Item) :
    item.lower.source d = SqlTokens.lower (item.source d) := by
  cases item with
  | plain b => rfl
  | doubled => simp [Item.lower, Item.source, Byte.toLower_of_not_isLetter hd]
  | escaped code => rfl

theorem bodyOnto_lower (hd : Byte.isLetter d = false) (read : List Item) (s : Bytes) :
    bodyOnto d (read.map Item.lower) (lower s) =
      ⟨(bodyOnto d read s).items.map Item.lower, (bodyOnto d read s).ending⟩ := by
  have hdelimiter := Byte.beq_toLower d hd
  have hescape := Byte.beq_toLower Byte.backslash rfl
  -- No comparison tells the case of a byte, so both go on with the same item.
  fun_induction bodyOnto d read s with
  | case1 read => simp [bodyOnto]
  | case2 read b hb => simp [bodyOnto, hdelimiter, hb]
  | case3 read b hb hc => simp [bodyOnto, hdelimiter, hescape, hb, hc]
  | case4 read b hb hc => simp [bodyOnto, hdelimiter, hescape, hb, hc, Item.lower]
  | case5 read b c rest hb hc ih => simpa [bodyOnto, hdelimiter, hb, hc, Item.lower] using ih
  | case6 read b c rest hb hc => simp [bodyOnto, hdelimiter, hb, hc]
  | case7 read b c rest hb hc ih =>
    simpa [bodyOnto, hdelimiter, hescape, hb, hc, Item.lower] using ih
  | case8 read b c rest hb hc ih =>
    simpa [bodyOnto, hdelimiter, hescape, hb, hc, Item.lower] using ih

/-- A literal in lower case has as many items, and ends alike. -/
theorem body_lower (hd : Byte.isLetter d = false) (s : Bytes) :
    body d (lower s) = ⟨(body d s).items.map Item.lower, (body d s).ending⟩ :=
  bodyOnto_lower hd [] s

theorem source_body_lower (hd : Byte.isLetter d = false) (s : Bytes) :
    (body d (lower s)).source d = lower ((body d s).source d) := by
  rw [body_lower hd, Body.source, Body.source, lower_append, List.flatMap_map]
  congr 1
  · rw [lower, List.map_flatMap]
    simp only [Item.source_lower hd]
    rfl
  · cases (body d s).ending with
    | closed => simp [Ending.source, Byte.toLower_of_not_isLetter hd]
    | unclosed => rfl
    | brokenEscape => rfl

end Quoted

/-! ## Lexemes -/

/-- `l'` is of the kind of `l`, and is written with the same bytes in lower case. -/
structure Lexeme.Lowers (l l' : Lexeme) : Prop where
  kind : l'.kind = l.kind
  source : l'.source = lower l.source

namespace Lexeme

theorem word_lowers (s : Bytes) : (word s).Lowers (word (lower s)) := by
  have hrun := Span.run_isCaseless Byte.isCaseless_isWordByte s
  have hlookup : (lower (Span.run Byte.isWordByte s)).map Byte.toLower =
      (Span.run Byte.isWordByte s).map Byte.toLower := lower_lower _
  constructor
  · unfold word
    rw [hrun]
    dsimp only
    rw [hlookup]
    split
    · rfl
    · rfl
  · rw [word_source, word_source, hrun]

theorem named_lowers (s : Bytes) : (named s).Lowers (named (lower s)) := by
  have hrun := Span.run_isCaseless Byte.isCaseless_isNameByte s
  constructor
  · unfold named
    rw [hrun]
    cases Span.run Byte.isNameByte s with
    | nil => rfl
    | cons b name => rfl
  · rw [named_source, named_source, hrun]
    rfl

theorem number_lowers (s : Bytes) : (number s).Lowers (number (lower s)) := by
  unfold number
  rw [Number.startsHexadecimal_lower, Number.isIllegalOctal_lower]
  split
  · exact ⟨rfl, Number.hexadecimal_isCaseless s⟩
  · split
    · exact ⟨rfl, Number.digits_isCaseless s⟩
    · exact ⟨rfl, Number.decimal_isCaseless s⟩

theorem afterDot_lowers (s : Bytes) : (afterDot s).Lowers (afterDot (lower s)) := by
  unfold afterDot
  rw [any_head?_lower Byte.isCaseless_isDigit]
  split
  · exact ⟨rfl, Number.pointed_isCaseless (Byte.dot :: s)⟩
  · exact ⟨rfl, rfl⟩

theorem lineComment_lowers {opening : Bytes} (h : lower opening = opening) (s : Bytes) :
    (lineComment opening s).Lowers (lineComment opening (lower s)) := by
  refine ⟨rfl, ?_⟩
  show opening ++ Comment.line (lower s) = lower (opening ++ Comment.line s)
  rw [Comment.line_isCaseless, lower_append, h]

theorem blockComment_lowers (s : Bytes) : (blockComment s).Lowers (blockComment (lower s)) := by
  unfold blockComment
  rw [Comment.block_lower]
  exact ⟨rfl, rfl⟩

/-- What does not come next in any form does not come next in lower case. -/
theorem head?_lower_ne {c : UInt8} (hc : Byte.isLetter c = false) {s : Bytes}
    (h : s.head? ≠ some c) : (lower s).head? ≠ some c :=
  mt (head?_lower_eq_iff hc s).1 h

theorem afterSlash_lowers (s : Bytes) : (afterSlash s).Lowers (afterSlash (lower s)) := by
  rcases afterSlash_cases s with ⟨r, rfl, hl⟩ | ⟨r, rfl, hl⟩ | ⟨hslash, hstar, hl⟩
  · exact lineComment_lowers rfl r
  · exact blockComment_lowers r
  · rw [hl, afterSlash_divide (head?_lower_ne rfl hslash) (head?_lower_ne rfl hstar)]
    exact ⟨rfl, rfl⟩

theorem afterDash_lowers (s : Bytes) : (afterDash s).Lowers (afterDash (lower s)) := by
  rcases afterDash_cases s with ⟨r, rfl, hl⟩ | ⟨hdash, hl⟩
  · exact lineComment_lowers rfl r
  · rw [hl, afterDash_minus (head?_lower_ne rfl hdash)]
    exact ⟨rfl, rfl⟩

theorem afterLess_lowers (s : Bytes) : (afterLess s).Lowers (afterLess (lower s)) := by
  rcases afterLess_cases s with
    ⟨r, rfl, hl⟩ | ⟨r, rfl, hl⟩ | ⟨r, rfl, hgreater, hl⟩ | ⟨hgreater, hequals, hl⟩
  · exact ⟨rfl, rfl⟩
  · exact ⟨rfl, rfl⟩
  · have hlower : lower (Byte.equals :: r) = Byte.equals :: lower r := rfl
    rw [hl, hlower, afterLess_lessEqual (head?_lower_ne rfl hgreater)]
    exact ⟨rfl, rfl⟩
  · rw [hl, afterLess_less (head?_lower_ne rfl hgreater) (head?_lower_ne rfl hequals)]
    exact ⟨rfl, rfl⟩

theorem afterGreater_lowers (s : Bytes) : (afterGreater s).Lowers (afterGreater (lower s)) := by
  rcases afterGreater_cases s with ⟨r, rfl, hl⟩ | ⟨hequals, hl⟩
  · exact ⟨rfl, rfl⟩
  · rw [hl, afterGreater_greater (head?_lower_ne rfl hequals)]
    exact ⟨rfl, rfl⟩

theorem afterBang_lowers (s : Bytes) : (afterBang s).Lowers (afterBang (lower s)) := by
  rcases afterBang_cases s with ⟨r, rfl, hl⟩ | ⟨hequals, hl⟩
  · exact ⟨rfl, rfl⟩
  · rw [hl, afterBang_malformed (head?_lower_ne rfl hequals)]
    exact ⟨rfl, rfl⟩

theorem quoted_lowers (kind : TokenKind) {d : UInt8} (hd : Byte.isLetter d = false) (s : Bytes) :
    (quoted kind d s).Lowers (quoted kind d (lower s)) := by
  constructor
  · rw [quoted, quoted, Quoted.body_lower hd]
  · show d :: (Quoted.body d (lower s)).source d = lower (d :: (Quoted.body d s).source d)
    rw [Quoted.source_body_lower hd, lower_cons, Byte.toLower_of_not_isLetter hd]

end Lexeme

/-- A letter announces a word in both of its forms. -/
theorem Opening.of_toLower (b : UInt8) : Opening.of (Byte.toLower b) = Opening.of b := by
  cases hb : Byte.isLetter b with
  | false => rw [Byte.toLower_of_not_isLetter hb]
  | true =>
    have hlower : Byte.isLetter (Byte.toLower b) = true := by rw [Byte.isCaseless_isLetter, hb]
    unfold Opening.of
    rw [if_pos hb, if_pos hlower]

/-- **Lexemes**: the same rule reads in lower case, and takes as much. -/
theorem Lexeme.read_lowers (b : UInt8) (rest : Bytes) :
    (read b rest).Lowers (read (Byte.toLower b) (lower rest)) := by
  have hb := Opening.announces_of b
  unfold read
  rw [Opening.of_toLower]
  generalize Opening.of b = opening at hb ⊢
  cases opening with
  | letter => exact word_lowers (b :: rest)
  | digit => exact number_lowers (b :: rest)
  | colon => exact named_lowers rest
  | single op => exact ⟨rfl, rfl⟩
  | question => exact ⟨rfl, rfl⟩
  | dot => exact afterDot_lowers rest
  | slash => exact afterSlash_lowers rest
  | dash => exact afterDash_lowers rest
  | less => exact afterLess_lowers rest
  | greater => exact afterGreater_lowers rest
  | bang => exact afterBang_lowers rest
  | delimiter kind =>
    have hletter : Byte.isLetter b = false := by
      rcases hb with ⟨rfl | rfl, -⟩ | ⟨rfl, -⟩ <;> rfl
    rw [Byte.toLower_of_not_isLetter hletter]
    exact quoted_lowers kind hletter rest
  | stray => exact ⟨rfl, rfl⟩

end SqlTokens
