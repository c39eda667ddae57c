import SqlTokens.Proofs.Lowering
import SqlTokens.Proofs.Substitution
import SqlTokens.Proofs.Utf8

/-! # Tokens that are written anew

    The kind and the text of a token are enough to write it: an operator by its sign, a
    string or a name between quotes, anything else by its text.  What is written so is read
    as the same token again, if a blank comes next or nothing at all.  This holds of
    whatever the lexer can read, also of numbers without digits and of names that are made
    for a `?`, which come back as names that stand in the input.

    * **Spelling**: `Token.spelling`.
    * **Gaps**: `AtGap.replaces` — a gap may come next instead of anything else.
    * **Token by token**: one lemma for each kind, and `Token.readsBack_of_read`. -/

namespace SqlTokens

open Utf8 (ofString)

/-! ## Spellings -/

/-- The blank that is written between tokens. -/
abbrev Byte.space : UInt8 := 0x20

namespace Name

/-- A byte as it is written in a name between backticks. -/
def encodeByte (b : UInt8) : Bytes :=
  if b == Byte.backtick || b == Byte.backslash then [b, b] else [b]

/-- The name between backticks. -/
def encode (name : Bytes) : Bytes :=
  Byte.backtick :: name.flatMap encodeByte ++ [Byte.backtick]

/-- Whether a name may stand without backticks: it is a word, and no reserved one. -/
def isBare (name : Bytes) : Bool :=
  name.head?.any Byte.isLetter && name.all Byte.isWordByte &&
    (Keyword.ofSpelling? (lower name)).isNone

end Name

namespace Token

/-- The bytes that a token is written with anew. -/
def spelling (t : Token) : Bytes :=
  match t.kind with
  | .operator sign => ofString sign.spelling
  | .string => Escape.encode t.bytes
  | .identifier => if Name.isBare t.bytes then t.bytes else Name.encode t.bytes
  | _ => t.bytes

/-- A token as the lexeme that is written so. -/
def rewritten (t : Token) : Lexeme :=
  ⟨t.kind, t.spelling, t.value.elim .absent .text⟩

/-- The token is read back from its spelling when `tail` comes next. -/
def ReadsBack (t : Token) (tail : Bytes) : Prop :=
  ∃ b more, t.spelling = b :: more ∧ Byte.isBlank b = false ∧
    Lexeme.read b (more ++ tail) = t.rewritten

end Token

/-! ## Gaps -/

/-- Nothing comes next, or a space. -/
def AtGap (tail : Bytes) : Prop :=
  tail = [] ∨ ∃ s, tail = Byte.space :: s

/-- A gap may come next instead of `t`, unless `t` is the end of the input: no lexeme goes
    on with a space. -/
theorem AtGap.replaces {tail t : Bytes} (h : AtGap tail) (ht : t = [] → tail = [])
    (source : Bytes) : Replaces source tail t := by
  rcases h with rfl | ⟨s, rfl⟩
  · exact ⟨fun _ => rfl, fun b hb => nomatch hb⟩
  · exact .of_isBlank rfl (fun hnil => nomatch ht hnil) source s

/-- What is read back in front of something is read back in front of a gap. -/
theorem Token.ReadsBack.replace {t : Token} {rest : Bytes} (h : t.ReadsBack rest) {tail : Bytes}
    (ht : AtGap tail) (hrest : rest = [] → tail = []) : t.ReadsBack tail := by
  obtain ⟨b, more, hspelling, hb, hread⟩ := h
  have hsource : (Lexeme.read b (more ++ rest)).source = b :: more := by
    rw [hread]
    exact hspelling
  have hsame := Lexeme.read_isLocal b hsource (ht.replaces hrest _)
  exact ⟨b, more, hspelling, hb, hsame.trans hread⟩

/-- A run ends in front of a space, which is in no class that rules look for. -/
theorem Span.run_append_space {p : UInt8 → Bool} (hp : Byte.IsSought p) {x : Bytes}
    (hx : ∀ b ∈ x, p b = true) : run p (x ++ [Byte.space]) = x := by
  have hspace : run p [Byte.space] = [] := run_eq_nil.2 (hp Byte.space rfl)
  rw [run, List.takeWhile_append_of_pos hx]
  exact List.append_right_eq_self.2 hspace

/-! ## Names between backticks -/

namespace Name

/-- The item by which a byte is written in a name between backticks. -/
def item (b : UInt8) : Quoted.Item :=
  if b = Byte.backtick then .doubled
  else if b = Byte.backslash then .escaped b
  else .plain b

theorem item_source (b : UInt8) : (item b).source Byte.backtick = encodeByte b := by
  unfold item encodeByte
  by_cases hb : b = Byte.backtick
  · simp [hb, Quoted.Item.source]
  · rw [if_neg hb]
    by_cases hb' : b = Byte.backslash
    · simp [hb', Quoted.Item.source]
    · simp [hb, hb', Quoted.Item.source]

theorem item_meaning (b : UInt8) : (item b).meaning Byte.backtick = b := by
  unfold item
  split
  · next hb => exact hb.symm
  · split
    · next hb => rw [hb]; rfl
    · rfl

theorem item_isProper (b : UInt8) : (item b).IsProper Byte.backtick := by
  unfold item
  split
  · trivial
  · next hb =>
    split
    · trivial
    · next hb' => exact ⟨hb, hb'⟩

theorem encode_eq (name : Bytes) :
    encode name = Byte.backtick :: ((name.map item).flatMap (Quoted.Item.source Byte.backtick) ++
      [Byte.backtick]) := by
  rw [List.flatMap_map]
  simp only [item_source]
  rfl

end Name

/-- **Round trip**: a name between backticks is read back, whatever follows it but a
    backtick. -/
theorem Lexeme.read_encodeName (name : Bytes) {s : Bytes} (hs : s.head? ≠ some Byte.backtick) :
    ∃ more, Name.encode name = Byte.backtick :: more ∧
      read Byte.backtick (more ++ s) = ⟨.identifier, Name.encode name, .text name⟩ := by
  refine ⟨_, Name.encode_eq name, ?_⟩
  show quoted .identifier Byte.backtick _ = _
  rw [List.append_assoc, List.singleton_append,
    quoted_map _ (by decide) Name.item_isProper Name.item_meaning name hs, Name.encode_eq]

/-! ## Names that are made -/

/-- A digit is written as a digit. -/
theorem utf8EncodeChar_of_isDigit {c : Char} (h : c.isDigit = true) :
    ∃ b, String.utf8EncodeChar c = [b] ∧ Byte.isDigit b = true := by
  obtain ⟨hlow, hhigh⟩ := Char.isDigit_iff_toNat.1 h
  have hlow' : 48 ≤ c.toNat := hlow
  have hhigh' : c.toNat ≤ 57 := hhigh
  have hn : (UInt8.ofNat c.toNat).toNat = c.toNat := Utf8.toNat_ofNat (by omega)
  have hlt : UInt8.ofNat c.toNat < 0x80 := by
    rw [UInt8.lt_iff_toNat_lt, hn]
    exact Nat.lt_of_le_of_lt hhigh' (by decide)
  have hencode := Utf8.utf8EncodeChar_ofNat hlt
  rw [hn, Char.ofNat_toNat] at hencode
  refine ⟨_, hencode, ?_⟩
  simp only [Byte.isDigit, UInt8.le_iff_toNat_le, hn, Bool.and_eq_true, decide_eq_true_eq]
  exact ⟨hlow', hhigh'⟩

/-- A number is written in digits. -/
theorem Byte.isDigit_of_mem_toString {n : Nat} {b : UInt8} (hb : b ∈ ofString (toString n)) :
    isDigit b = true := by
  rw [ofString, Nat.toString_eq_repr, Nat.toList_repr] at hb
  obtain ⟨c, hc, hb⟩ := List.mem_flatMap.1 hb
  have hdigit : c.isDigit = true := Nat.isDigit_of_mem_toDigits (by decide) (by decide) hc
  obtain ⟨d, hd, hvalue⟩ := utf8EncodeChar_of_isDigit hdigit
  rw [hd, List.mem_singleton] at hb
  rw [hb, hvalue]

/-- A name that is made for a `?` may stand in the input too. -/
theorem isNamed_ordinalName (n : Nat) : IsNamed (ordinalName n) := by
  have hname : ordinalName n = Byte.colon :: 0x76 :: ofString (toString n) :=
    Utf8.ofString_append ":v" (toString n)
  refine ⟨_, hname, by simp, ?_⟩
  intro b hb
  rcases List.mem_cons.1 hb with rfl | hb
  · rfl
  · rw [Byte.isNameByte, Byte.isWordByte, Byte.isDigit_of_mem_toString hb, Bool.or_true,
      Bool.true_or]

/-! ## Token by token -/

theorem Lexeme.eq_mk {l : Lexeme} {kind : TokenKind} {source : Bytes} {content : Content}
    (hkind : l.kind = kind) (hsource : l.source = source) (hcontent : l.content = content) :
    l = ⟨kind, source, content⟩ := by
  rw [← hkind, ← hsource, ← hcontent]

namespace Token

theorem readsBack_string (v : Bytes) (p : Nat) :
    ReadsBack ⟨.string, some v, p⟩ [Byte.space] := by
  obtain ⟨more, hspelling, hread⟩ :=
    Lexeme.read_encode v (s := [Byte.space]) (by decide)
  exact ⟨_, more, hspelling, rfl, hread⟩

/-- A word that is not reserved is an identifier. -/
theorem read_of_isBare {b : UInt8} {more : Bytes} (h : Name.isBare (b :: more) = true) :
    Byte.isBlank b = false ∧
      Lexeme.read b (more ++ [Byte.space]) = .verbatim .identifier (b :: more) := by
  simp only [Name.isBare, Bool.and_eq_true, List.all_eq_true, Option.isNone_iff_eq_none] at h
  obtain ⟨⟨hletter, hword⟩, hfree⟩ := h
  have hb : Byte.isLetter b = true := hletter
  have hopening : Opening.of b = .letter := if_pos hb
  have hrun := Span.run_append_space Byte.isSought_isWordByte hword
  have hlookup : Keyword.ofSpelling? ((b :: more).map Byte.toLower) = none := hfree
  refine ⟨Byte.isSought_isLetter.isBlank hb, ?_⟩
  rw [Lexeme.read, hopening]
  show Lexeme.word (b :: more ++ [Byte.space]) = _
  rw [Lexeme.word, hrun, hlookup]

theorem readsBack_identifier (v : Bytes) (p : Nat) :
    ReadsBack ⟨.identifier, some v, p⟩ [Byte.space] := by
  cases hbare : Name.isBare v with
  | false =>
    have hspelling : spelling ⟨.identifier, some v, p⟩ = Name.encode v := by
      simp [spelling, bytes, hbare]
    obtain ⟨more, hencode, hread⟩ := Lexeme.read_encodeName v (s := [Byte.space]) (by decide)
    refine ⟨_, more, hspelling.trans hencode, rfl, ?_⟩
    rw [hread, rewritten, hspelling]
    rfl
  | true =>
    have hspelling : spelling ⟨.identifier, some v, p⟩ = v := by
      simp [spelling, bytes, hbare]
    cases v with
    | nil => cases hbare
    | cons b more =>
      obtain ⟨hblank, hread⟩ := read_of_isBare hbare
      refine ⟨b, more, hspelling, hblank, ?_⟩
      rw [hread, rewritten, hspelling]
      rfl

theorem readsBack_placeholder {v : Bytes} (h : IsNamed v) (p : Nat) :
    ReadsBack ⟨.placeholder, some v, p⟩ [Byte.space] := by
  obtain ⟨name, rfl, hne, hname⟩ := h
  refine ⟨Byte.colon, name, rfl, rfl, ?_⟩
  show Lexeme.named (name ++ [Byte.space]) = _
  rw [Lexeme.named, Span.run_append_space Byte.isSought_isNameByte hname]
  cases name with
  | nil => exact absurd rfl hne
  | cons b name => rfl

theorem readsBack_operator (sign : Operator) (p : Nat) :
    ReadsBack ⟨.operator sign, none, p⟩ [Byte.space] := by
  cases sign <;> exact ⟨_, _, rfl, rfl, rfl⟩

section
variable {b : UInt8} {more rest : Bytes} (hb : Byte.isBlank b = false)
  (hsource : (Lexeme.read b (more ++ rest)).source = b :: more)
include hb hsource

/-- A number is read back where it stands, for it is written as it was. -/
theorem readsBack_number (hkind : (Lexeme.read b (more ++ rest)).kind = .number) (p : Nat) :
    ReadsBack ⟨.number, some (b :: more), p⟩ rest := by
  have hspelled := Lexeme.read_isSpelled b (more ++ rest)
  rw [Lexeme.IsSpelled, hkind, hsource] at hspelled
  exact ⟨b, more, rfl, hb, Lexeme.eq_mk hkind hsource hspelled⟩

/-- A reserved word is read back in lower case, in which all of the input is read alike. -/
theorem readsBack_keyword {k : Keyword}
    (hkind : (Lexeme.read b (more ++ rest)).kind = .keyword k) (p : Nat) :
    ReadsBack ⟨.keyword k, some k.bytes, p⟩ (lower rest) := by
  have hspelled := Lexeme.read_isSpelled b (more ++ rest)
  rw [Lexeme.IsSpelled, hkind, hsource] at hspelled
  obtain ⟨-, hbytes⟩ := hspelled
  obtain ⟨hkind', hsource'⟩ := Lexeme.read_lowers b (more ++ rest)
  have hspelled' := Lexeme.read_isSpelled (Byte.toLower b) (lower (more ++ rest))
  rw [hkind] at hkind'
  rw [hsource] at hsource'
  have hlower : lower (b :: more) = k.bytes := hbytes
  rw [Lexeme.IsSpelled, hkind', hsource'] at hspelled'
  obtain ⟨hcontent', hbytes'⟩ := hspelled'
  rw [hbytes'] at hcontent'
  rw [hlower] at hsource'
  rw [lower_append] at hkind' hsource' hcontent'
  refine ⟨Byte.toLower b, lower more, hlower.symm, ?_, Lexeme.eq_mk hkind' hsource' hcontent'⟩
  rw [Byte.isCaseless_isBlank, hb]

end

/-- **Reading back**: whatever is read, but for a comment and what is malformed, is read
    back from its spelling in front of a gap. -/
theorem readsBack_of_read {b : UInt8} {more rest tail : Bytes} (hb : Byte.isBlank b = false)
    (hsource : (Lexeme.read b (more ++ rest)).source = b :: more) (ht : AtGap tail)
    (hrest : rest = [] → tail = [])
    (hcomment : (Lexeme.read b (more ++ rest)).kind ≠ .comment)
    (hmalformed : (Lexeme.read b (more ++ rest)).kind ≠ .malformed) (n p : Nat) :
    ReadsBack ⟨(Lexeme.read b (more ++ rest)).kind,
      (Lexeme.read b (more ++ rest)).content.value? n, p⟩ tail := by
  have hspace : [Byte.space] = [] → tail = [] := fun h => nomatch h
  have hspelled := Lexeme.read_isSpelled b (more ++ rest)
  rw [Lexeme.IsSpelled, hsource] at hspelled
  cases hkind : (Lexeme.read b (more ++ rest)).kind with
  | keyword k =>
    rw [hkind] at hspelled
    obtain ⟨hcontent, hbytes⟩ := hspelled
    rw [hcontent, hbytes]
    refine (readsBack_keyword hb hsource hkind p).replace ht fun hnil => hrest ?_
    exact List.map_eq_nil_iff.1 hnil
  | identifier =>
    rw [hkind] at hspelled
    rcases hspelled with hcontent | ⟨items, -, hcontent⟩
    · rw [hcontent]
      exact (readsBack_identifier _ p).replace ht hspace
    · rw [hcontent]
      exact (readsBack_identifier _ p).replace ht hspace
  | string =>
    rw [hkind] at hspelled
    rcases hspelled with ⟨items, -, hcontent⟩ | ⟨items, -, hcontent⟩
    · rw [hcontent]
      exact (readsBack_string _ p).replace ht hspace
    · rw [hcontent]
      exact (readsBack_string _ p).replace ht hspace
  | number =>
    rw [hkind] at hspelled
    rw [show (Lexeme.read b (more ++ rest)).content = _ from hspelled]
    exact (readsBack_number hb hsource hkind p).replace ht hrest
  | placeholder =>
    rw [hkind] at hspelled
    rcases hspelled with ⟨hcontent, hnamed⟩ | ⟨-, hcontent⟩
    · rw [hcontent]
      exact (readsBack_placeholder hnamed p).replace ht hspace
    · rw [hcontent]
      exact (readsBack_placeholder (isNamed_ordinalName n) p).replace ht hspace
  | operator sign =>
    rw [hkind] at hspelled
    obtain ⟨hcontent, -⟩ := hspelled
    rw [hcontent]
    exact (readsBack_operator sign p).replace ht hspace
  | comment => exact absurd hkind hcomment
  | endOfInput => exact absurd hkind (Lexeme.kind_ne_endOfInput b _)
  | malformed => exact absurd hkind hmalformed

end Token

end SqlTokens
