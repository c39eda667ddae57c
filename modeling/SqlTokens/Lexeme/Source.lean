import SqlTokens.Lexeme.Opening

/-! # The source of a lexeme

    Whatever stands at the head of the input, the lexeme read there is written
    with at least one byte: reading goes forward even over what is malformed. -/

namespace SqlTokens

namespace Opening

theorem isLetter_of_letter {b : UInt8} (h : Opening.of b = .letter) : Byte.isLetter b := by
  unfold Opening.of at h
  split at h
  · assumption
  · split at h
    · cases h
    · split at h
      · cases h
      · split at h <;> cases h

theorem isDigit_of_digit {b : UInt8} (h : Opening.of b = .digit) : Byte.isDigit b := by
  unfold Opening.of at h
  split at h
  · cases h
  · split at h
    · assumption
    · split at h
      · cases h
      · split at h <;> cases h

end Opening

namespace Lexeme

theorem word_source_ne_nil {b : UInt8} (rest : Bytes) (h : Byte.isLetter b) :
    (word (b :: rest)).source ≠ [] := by
  have hs : Span.run Byte.isWordByte (b :: rest) ≠ [] := by
    simp [Span.run, Byte.isWordByte, h]
  unfold word
  dsimp only
  split <;> simpa [verbatim] using hs

theorem number_source_ne_nil {b : UInt8} (rest : Bytes) (h : Byte.isDigit b) :
    (number (b :: rest)).source ≠ [] := by
  have hs : Number.digits (b :: rest) ≠ [] := by
    simp [Number.digits, Span.run, h]
  unfold number
  split
  · next hx =>
    cases rest with
    | nil => simp [Number.startsHexadecimal] at hx
    | cons mark rest =>
      simp only [Number.startsHexadecimal, Bool.and_eq_true] at hx
      simp [verbatim, Number.hexadecimal, Span.opened, hx.1]
  · split
    · simpa [verbatim] using hs
    · simp [verbatim, Number.decimal, Span.followedBy, hs]

theorem afterDot_source_ne_nil (s : Bytes) : (afterDot s).source ≠ [] := by
  unfold afterDot
  split <;> simp [verbatim, sign, Number.pointed, Span.followedBy, Number.fraction, Span.opened]

/-- Every byte opens a lexeme of at least one byte. -/
theorem read_source_ne_nil (b : UInt8) (rest : Bytes) : (read b rest).source ≠ [] := by
  unfold read
  split
  · next h => exact word_source_ne_nil rest (Opening.isLetter_of_letter h)
  · next h => exact number_source_ne_nil rest (Opening.isDigit_of_digit h)
  · unfold named
    split <;> simp [verbatim]
  · simp [sign]
  · simp
  · exact afterDot_source_ne_nil rest
  · unfold afterSlash
    split <;> simp [lineComment, blockComment, verbatim, sign]
  · unfold afterDash
    split <;> simp [lineComment, verbatim, sign]
  · unfold afterLess
    split <;> simp [sign]
  · unfold afterGreater
    split <;> simp [sign]
  · unfold afterBang
    split <;> simp [sign, verbatim]
  · simp [quoted]
  · simp [verbatim]

end Lexeme

end SqlTokens
