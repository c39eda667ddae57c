import SqlTokens.Proofs.Prefix

/-! # Spelling

    How each kind of token is written, and what text a token has that is written
    so.  Whatever the rules of the lexer read is spelled like this
    (`Lexeme.read_isSpelled`), so that the source of a lexeme determines its text:
    nothing is said in the text that does not stand in the input. -/

namespace SqlTokens

/-- A literal between two delimiters `d`: its items are written one after the
    other, and the text is what they denote. -/
def IsLiteral (d : UInt8) (source : Bytes) (content : Content) : Prop :=
  ∃ items : List Quoted.Item, source = d :: (items.flatMap (Quoted.Item.source d) ++ [d]) ∧
    content = .text (items.map (Quoted.Item.meaning d))

/-- A literal that the end of the input cuts off, perhaps in the middle of an
    escape: the text is what the items before that denote. -/
def IsCutOff (d : UInt8) (source : Bytes) (content : Content) : Prop :=
  ∃ items : List Quoted.Item, content = .text (items.map (Quoted.Item.meaning d)) ∧
    (source = d :: items.flatMap (Quoted.Item.source d) ∨
      source = d :: (items.flatMap (Quoted.Item.source d) ++ [Byte.backslash]))

/-- A colon and a name, which has at least one byte. -/
def IsNamed (source : Bytes) : Prop :=
  ∃ name, source = Byte.colon :: name ∧ name ≠ [] ∧ ∀ b ∈ name, Byte.isNameByte b = true

/-- A token of this kind may be written as `source` if it has this text. -/
def TokenKind.Spells (source : Bytes) (content : Content) : TokenKind → Prop
  | .number => content = .text source
  | .comment => content = .text source
  | .keyword word =>
    content = .text (source.map Byte.toLower) ∧ source.map Byte.toLower = word.bytes
  | .placeholder =>
    (content = .text source ∧ IsNamed source) ∨ source = [Byte.question] ∧ content = .ordinal
  | .operator sign =>
    content = .absent ∧ (source = Utf8.ofString sign.spelling
      ∨ sign = .notEqual ∧ source = [Byte.bang, Byte.equals])
  | .string =>
    IsLiteral Byte.quote source content ∨ IsLiteral Byte.doubleQuote source content
  | .identifier => content = .text source ∨ IsLiteral Byte.backtick source content
  | .malformed =>
    content = .text source ∨ ∃ d ∈ [Byte.quote, Byte.doubleQuote, Byte.backtick],
      IsCutOff d source content
  | .endOfInput => False

namespace Lexeme

/-- A lexeme is written as its kind and its text demand. -/
def IsSpelled (l : Lexeme) : Prop :=
  l.kind.Spells l.source l.content

/-! ## Rule by rule -/

theorem bytes_of_ofSpelling? {word : Bytes} {k : Keyword}
    (h : Keyword.ofSpelling? word = some k) : k.bytes = word := by
  obtain ⟨entry, hf, rfl⟩ := Option.map_eq_some_iff.1 h
  have hm := List.mem_of_find?_eq_some hf
  have he := List.find?_some hf
  obtain ⟨k, -, rfl⟩ := List.mem_map.1 hm
  simpa using he

theorem word_isSpelled (s : Bytes) : (word s).IsSpelled := by
  unfold word
  dsimp only
  split
  · next k hk => exact ⟨rfl, (bytes_of_ofSpelling? hk).symm⟩
  · exact .inl rfl

theorem number_isSpelled (s : Bytes) : (number s).IsSpelled := by
  unfold number
  split
  · rfl
  · split
    · exact .inl rfl
    · rfl

theorem named_isSpelled (s : Bytes) : (named s).IsSpelled := by
  unfold named
  split
  · exact .inl rfl
  · next hn =>
    exact .inl ⟨rfl, _, rfl, hn, List.all_eq_true.1 List.all_takeWhile⟩

theorem single_isSpelled {b : UInt8} {op : Operator}
    (h : Operator.ofSelfDelimiting? b = some op) : (sign op [b]).IsSpelled := by
  refine ⟨rfl, .inl ?_⟩
  unfold Operator.ofSelfDelimiting? at h
  split at h <;> cases h <;> rfl

theorem afterDot_isSpelled (s : Bytes) : (afterDot s).IsSpelled := by
  unfold afterDot
  split
  · rfl
  · exact ⟨rfl, .inl rfl⟩

theorem blockComment_isSpelled (s : Bytes) : (blockComment s).IsSpelled := by
  unfold blockComment
  obtain ⟨body, isClosed⟩ := Comment.block s
  cases isClosed with
  | true => rfl
  | false => exact .inl rfl

theorem afterSlash_isSpelled (s : Bytes) : (afterSlash s).IsSpelled := by
  unfold afterSlash
  split
  · rfl
  · exact blockComment_isSpelled _
  · exact ⟨rfl, .inl rfl⟩

theorem afterDash_isSpelled (s : Bytes) : (afterDash s).IsSpelled := by
  unfold afterDash
  split
  · rfl
  · exact ⟨rfl, .inl rfl⟩

theorem afterLess_isSpelled (s : Bytes) : (afterLess s).IsSpelled := by
  unfold afterLess
  split <;> exact ⟨rfl, .inl rfl⟩

theorem afterGreater_isSpelled (s : Bytes) : (afterGreater s).IsSpelled := by
  unfold afterGreater
  split <;> exact ⟨rfl, .inl rfl⟩

theorem afterBang_isSpelled (s : Bytes) : (afterBang s).IsSpelled := by
  unfold afterBang
  split
  · exact ⟨rfl, .inr ⟨rfl, rfl⟩⟩
  · exact .inl rfl

theorem quoted_isSpelled {kind : TokenKind} {d : UInt8}
    (h : Opening.Announces d (.delimiter kind)) (s : Bytes) : (quoted kind d s).IsSpelled := by
  unfold quoted
  have hd : d ∈ [Byte.quote, Byte.doubleQuote, Byte.backtick] := by
    rcases h with ⟨rfl | rfl, -⟩ | ⟨rfl, -⟩ <;> simp
  obtain ⟨items, ending⟩ := Quoted.body d s
  cases ending with
  | closed =>
    -- The delimiter tells which kind of literal it is.
    rcases h with ⟨rfl | rfl, rfl⟩ | ⟨rfl, rfl⟩
    · exact .inl ⟨items, rfl, rfl⟩
    · exact .inr ⟨items, rfl, rfl⟩
    · exact .inr ⟨items, rfl, rfl⟩
  | unclosed => exact .inr ⟨d, hd, items, rfl, .inl (congrArg (d :: ·) (List.append_nil _))⟩
  | brokenEscape => exact .inr ⟨d, hd, items, rfl, .inr rfl⟩

/-! ## The whole lexeme -/

/-- **Spelling**: whatever is read is written as its kind and its text demand. -/
theorem read_isSpelled (b : UInt8) (rest : Bytes) : (read b rest).IsSpelled := by
  have hb := Opening.announces_of b
  unfold read
  generalize Opening.of b = opening at hb ⊢
  cases opening with
  | letter => exact word_isSpelled _
  | digit => exact number_isSpelled _
  | colon => exact named_isSpelled rest
  | single op => exact single_isSpelled hb
  | question => cases hb; exact .inr ⟨rfl, rfl⟩
  | dot => exact afterDot_isSpelled rest
  | slash => exact afterSlash_isSpelled rest
  | dash => exact afterDash_isSpelled rest
  | less => exact afterLess_isSpelled rest
  | greater => exact afterGreater_isSpelled rest
  | bang => exact afterBang_isSpelled rest
  | delimiter kind => exact quoted_isSpelled hb rest
  | stray => exact .inl rfl

/-- A `?` is a placeholder without a name, and nothing else is. -/
theorem content_eq_ordinal_iff (b : UInt8) (rest : Bytes) :
    (read b rest).content = .ordinal ↔ (read b rest).source = [Byte.question] := by
  constructor
  · intro h
    have hs := read_isSpelled b rest
    unfold IsSpelled at hs
    rw [h] at hs
    cases hk : (read b rest).kind <;> simp_all [TokenKind.Spells, IsLiteral, IsCutOff]
  · intro h
    obtain ⟨more, tail, -, hs⟩ := exists_tail b rest
    obtain rfl : b = Byte.question := by
      rw [hs] at h
      exact (List.cons.inj h).1
    rfl

end Lexeme

end SqlTokens
