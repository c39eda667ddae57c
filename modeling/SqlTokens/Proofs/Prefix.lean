import SqlTokens.Lexeme.Source

/-! # The head of the input

    Each rule of the lexer writes its lexeme with bytes at the head of the input:
    none of them is left out, none is made up, and their order is kept.

    * **What a byte announces**: `Opening.announces_of` says of each opening which
      bytes have it; later proofs need no case analysis of the 256 bytes.
    * **Heads**: `Lexeme.read_source_isPrefix` and, in the form in which it is used,
      `Lexeme.exists_tail`. -/

namespace SqlTokens

/-! ## What a byte announces -/

namespace Opening

/-- What is known of a byte `b` with this opening. -/
def Announces (b : UInt8) : Opening → Prop
  | .letter => Byte.isLetter b
  | .digit => Byte.isDigit b
  | .colon => b = Byte.colon
  | .single op => Operator.ofSelfDelimiting? b = some op
  | .question => b = Byte.question
  | .dot => b = Byte.dot
  | .slash => b = Byte.slash
  | .dash => b = Byte.dash
  | .less => b = Byte.less
  | .greater => b = Byte.greater
  | .bang => b = Byte.bang
  | .delimiter kind =>
    (b = Byte.quote ∨ b = Byte.doubleQuote) ∧ kind = .string
      ∨ b = Byte.backtick ∧ kind = .identifier
  | .stray => True

theorem announces_of (b : UInt8) : Announces b (Opening.of b) := by
  unfold Opening.of
  split
  · assumption
  · split
    · assumption
    · split
      · assumption
      · split <;> simp [Announces]

section
variable {b : UInt8}

theorem isLetter_eq_false (hletter : of b ≠ .letter) : Byte.isLetter b = false := by
  cases hl : Byte.isLetter b with
  | false => rfl
  | true =>
    have ho : of b = .letter := by
      unfold Opening.of
      rw [if_pos hl]
    exact absurd ho hletter

theorem isDigit_eq_false (hletter : of b ≠ .letter) (hdigit : of b ≠ .digit) :
    Byte.isDigit b = false := by
  have hl := isLetter_eq_false hletter
  cases hd : Byte.isDigit b with
  | false => rfl
  | true =>
    have ho : of b = .digit := by
      unfold Opening.of
      rw [hl, if_neg Bool.false_ne_true, if_pos hd]
    exact absurd ho hdigit

theorem ofSelfDelimiting?_eq_none (hletter : of b ≠ .letter)
    (hdigit : of b ≠ .digit) (hsingle : ∀ op, of b ≠ .single op) :
    Operator.ofSelfDelimiting? b = none := by
  have hl := isLetter_eq_false hletter
  have hd := isDigit_eq_false hletter hdigit
  cases hop : Operator.ofSelfDelimiting? b with
  | none => rfl
  | some op =>
    have ho : of b = .single op := by
      unfold Opening.of
      rw [hl, hd, hop, if_neg Bool.false_ne_true, if_neg Bool.false_ne_true]
    exact absurd ho (hsingle op)

end

end Opening

/-! ## The parts of a lexeme -/

namespace Lexeme

theorem word_source (s : Bytes) : (word s).source = Span.run Byte.isWordByte s := by
  unfold word
  dsimp only
  split <;> rfl

theorem word_source_isPrefix (s : Bytes) : (word s).source <+: s := by
  rw [word_source]
  exact Span.run_isPrefix _ s

theorem named_source_isPrefix (s : Bytes) : (named s).source <+: Byte.colon :: s := by
  have hs := Span.run_isPrefix Byte.isNameByte s
  unfold named
  split
  · exact ⟨s, rfl⟩
  · next hn => exact (List.prefix_cons_inj _).2 hs

end Lexeme

namespace Number

theorem fraction_isPrefix (s : Bytes) : fraction s <+: s :=
  Span.opened_isPrefix (Span.run_isPrefix _) _ s

theorem exponent_isPrefix (s : Bytes) : exponent s <+: s :=
  Span.opened_isPrefix
    (Span.followedBy_isPrefix (Span.one_isPrefix _) (Span.run_isPrefix _)) _ s

theorem pointed_isPrefix (s : Bytes) : pointed s <+: s :=
  Span.followedBy_isPrefix fraction_isPrefix exponent_isPrefix s

theorem decimal_isPrefix (s : Bytes) : decimal s <+: s :=
  Span.followedBy_isPrefix (Span.run_isPrefix _) pointed_isPrefix s

theorem hexadecimal_isPrefix (s : Bytes) : hexadecimal s <+: s :=
  Span.opened_isPrefix (Span.opened_isPrefix (Span.run_isPrefix _) _) _ s

end Number

namespace Comment

theorem line_isPrefix (s : Bytes) : line s <+: s := by
  -- The bytes before the newline, and then one more at the most.
  have h : s.takeWhile (· != Byte.newline) <+: s := List.takeWhile_prefix _
  have hd := List.prefix_iff_eq_append.1 h
  have ht := List.take_prefix 1 (s.drop (s.takeWhile (· != Byte.newline)).length)
  have := (List.prefix_append_right_inj (s.takeWhile (· != Byte.newline))).2 ht
  rwa [hd] at this

theorem blockOnto_isPrefix (read s : Bytes) :
    (blockOnto read s).1 <+: read.reverse ++ s := by
  fun_induction blockOnto read s with
  | case1 read => simp
  | case2 read b => simp
  | case3 read b c rest h => simp
  | case4 read b c rest h ih => simpa using ih

theorem block_isPrefix (s : Bytes) : (block s).1 <+: s :=
  blockOnto_isPrefix [] s

end Comment

namespace Quoted

theorem bodyOnto_source_isPrefix (d : UInt8) (read : List Item) (s : Bytes) :
    (bodyOnto d read s).source d <+: read.reverse.flatMap (Item.source d) ++ s := by
  -- In each round, the item that is read moves from `s` to the items before.
  fun_induction bodyOnto d read s with
  | case1 read => simp [Body.source, Ending.source]
  | case2 read b h =>
    simp only [beq_iff_eq] at h
    simp [Body.source, Ending.source, h]
  | case3 read b hd hb =>
    simp only [beq_iff_eq] at hb
    simp [Body.source, Ending.source, hb]
  | case4 read b hd hb => simp [Body.source, Ending.source, Item.source]
  | case5 read b c rest hb hc ih =>
    simp only [beq_iff_eq] at hb hc
    simpa [Item.source, hb, hc] using ih
  | case6 read b c rest hb hc =>
    simp only [beq_iff_eq] at hb
    simp [Body.source, Ending.source, hb]
  | case7 read b c rest hd hb ih =>
    simp only [beq_iff_eq] at hb
    simpa [Item.source, hb] using ih
  | case8 read b c rest hd hb ih => simpa [Item.source] using ih

theorem body_source_isPrefix (d : UInt8) (s : Bytes) : (body d s).source d <+: s :=
  bodyOnto_source_isPrefix d [] s

end Quoted

namespace Lexeme

theorem number_source_isPrefix (s : Bytes) : (number s).source <+: s := by
  unfold number
  split
  · exact Number.hexadecimal_isPrefix s
  · split
    · exact Span.run_isPrefix _ s
    · exact Number.decimal_isPrefix s

theorem afterDot_source_isPrefix (s : Bytes) : (afterDot s).source <+: Byte.dot :: s := by
  unfold afterDot
  split
  · exact Number.pointed_isPrefix _
  · exact ⟨s, rfl⟩

theorem lineComment_source_isPrefix (opening s : Bytes) :
    (lineComment opening s).source <+: opening ++ s :=
  (List.prefix_append_right_inj opening).2 (Comment.line_isPrefix s)

theorem blockComment_source_isPrefix (s : Bytes) :
    (blockComment s).source <+: Byte.slash :: Byte.star :: s :=
  (List.prefix_append_right_inj [Byte.slash, Byte.star]).2 (Comment.block_isPrefix s)

theorem afterSlash_source_isPrefix (s : Bytes) :
    (afterSlash s).source <+: Byte.slash :: s := by
  unfold afterSlash
  split
  · exact lineComment_source_isPrefix _ _
  · exact blockComment_source_isPrefix _
  · exact ⟨_, rfl⟩

theorem afterDash_source_isPrefix (s : Bytes) : (afterDash s).source <+: Byte.dash :: s := by
  unfold afterDash
  split
  · exact lineComment_source_isPrefix _ _
  · exact ⟨_, rfl⟩

theorem afterLess_source_isPrefix (s : Bytes) : (afterLess s).source <+: Byte.less :: s := by
  unfold afterLess
  split <;> exact ⟨_, rfl⟩

theorem afterGreater_source_isPrefix (s : Bytes) :
    (afterGreater s).source <+: Byte.greater :: s := by
  unfold afterGreater
  split <;> exact ⟨_, rfl⟩

theorem afterBang_source_isPrefix (s : Bytes) : (afterBang s).source <+: Byte.bang :: s := by
  unfold afterBang
  split <;> exact ⟨_, rfl⟩

theorem quoted_source_isPrefix (kind : TokenKind) (d : UInt8) (s : Bytes) :
    (quoted kind d s).source <+: d :: s :=
  (List.prefix_cons_inj d).2 (Quoted.body_source_isPrefix d s)

/-! ## The whole lexeme -/

theorem read_source_isPrefix (b : UInt8) (rest : Bytes) : (read b rest).source <+: b :: rest := by
  -- What the rules put before their lexeme is the byte that was announced.
  have hb := Opening.announces_of b
  unfold read
  generalize Opening.of b = opening at hb ⊢
  cases opening with
  | letter => exact word_source_isPrefix _
  | digit => exact number_source_isPrefix _
  | colon => cases hb; exact named_source_isPrefix rest
  | single op => exact ⟨rest, rfl⟩
  | question => exact ⟨rest, rfl⟩
  | dot => cases hb; exact afterDot_source_isPrefix rest
  | slash => cases hb; exact afterSlash_source_isPrefix rest
  | dash => cases hb; exact afterDash_source_isPrefix rest
  | less => cases hb; exact afterLess_source_isPrefix rest
  | greater => cases hb; exact afterGreater_source_isPrefix rest
  | bang => cases hb; exact afterBang_source_isPrefix rest
  | delimiter kind => exact quoted_source_isPrefix kind b rest
  | stray => exact ⟨rest, rfl⟩

/-- The input after its first byte is what else the lexeme is written with, and a tail. -/
theorem exists_tail (b : UInt8) (rest : Bytes) :
    ∃ more tail, rest = more ++ tail ∧ (read b rest).source = b :: more := by
  obtain ⟨tail, h⟩ := read_source_isPrefix b rest
  cases hs : (read b rest).source with
  | nil => exact absurd hs (read_source_ne_nil b rest)
  | cons c more =>
    rw [hs, List.cons_append, List.cons.injEq] at h
    obtain ⟨rfl, rfl⟩ := h
    exact ⟨more, tail, rfl, rfl⟩

end Lexeme

end SqlTokens
