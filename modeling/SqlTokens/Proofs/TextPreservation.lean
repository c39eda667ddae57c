import SqlTokens.Proofs.Binding
import SqlTokens.Proofs.CommentEnd
import SqlTokens.Proofs.EntryPoints
import SqlTokens.Proofs.Lowering
import SqlTokens.Proofs.TextParts

/-! # Tokens of a text

    The lexer reads a text byte by byte, but what its tokens carry are texts again.  Each
    rule ends where its lexeme ends because of a byte from ASCII, or because the input is
    over; and what an escape or a doubled delimiter leaves out or exchanges is from ASCII
    too.  A character outside ASCII that stands where a token should start is the only
    one to be torn: each byte of it is malformed by itself, and the lexer goes on within
    the character.

    * **Spans**: `Span.IsAscii`, which is kept when spans are put together.
    * **Comments**: `Comment.isText_line`, `Comment.isText_block`.
    * **Literals**: `Quoted.isText_value`, closed or not.
    * **Lexemes**: `Lexeme.read_carriesText`, from any byte from ASCII on.
    * **Tokens**: `scanned_isText`. -/

namespace SqlTokens

open Utf8 (ofString IsText Revises)

/-! ## Bytes and spans from ASCII -/

namespace Byte

/-- No rule looks for a byte that is not from ASCII. -/
theorem isInert_of_le {b : UInt8} (hb : 0x80 ≤ b) : isInert b = true :=
  forall_of_lt (P := fun b => 0x80 ≤ b → isInert b = true) (by decide +kernel) b hb

theorem IsSought.lt {p : UInt8 → Bool} (hp : IsSought p) {b : UInt8} (hb : p b = true) :
    b < 0x80 := by
  by_contra hlt
  have hno := hp b (isInert_of_le (UInt8.not_lt.1 hlt))
  rw [hb] at hno
  cases hno

end Byte

namespace Span

/-- A span that takes nothing but bytes from ASCII. -/
def IsAscii (span : Span) : Prop :=
  ∀ s, ∀ b ∈ span s, b < 0x80

theorem run_isAscii {p : UInt8 → Bool} (hp : Byte.IsSought p) : (run p).IsAscii := by
  intro s b hb
  exact hp.lt (List.all_eq_true.1 List.all_takeWhile b hb)

theorem one_isAscii {p : UInt8 → Bool} (hp : Byte.IsSought p) : (one p).IsAscii := by
  intro s b hb
  cases s with
  | nil => cases hb
  | cons c s =>
    rw [one] at hb
    split at hb
    · next hc =>
      rw [List.mem_singleton.1 hb]
      exact hp.lt hc
    · cases hb

theorem opened_isAscii {p : UInt8 → Bool} (hp : Byte.IsSought p) {more : Span}
    (hmore : more.IsAscii) : (opened p more).IsAscii := by
  intro s b hb
  cases s with
  | nil => cases hb
  | cons c s =>
    rw [opened] at hb
    split at hb
    · next hc =>
      rcases List.mem_cons.1 hb with rfl | hb
      · exact hp.lt hc
      · exact hmore s b hb
    · cases hb

theorem followedBy_isAscii {first second : Span} (h₁ : first.IsAscii) (h₂ : second.IsAscii) :
    (first.followedBy second).IsAscii := by
  intro s b hb
  rcases List.mem_append.1 hb with hb | hb
  · exact h₁ s b hb
  · exact h₂ _ b hb

end Span

namespace Number

theorem digits_isAscii : Span.IsAscii digits :=
  Span.run_isAscii Byte.isSought_isDigit

theorem fraction_isAscii : Span.IsAscii fraction :=
  Span.opened_isAscii (Byte.isSought_eq rfl) digits_isAscii

theorem exponent_isAscii : Span.IsAscii exponent :=
  Span.opened_isAscii Byte.isSought_isExponentMark
    (Span.followedBy_isAscii (Span.one_isAscii Byte.isSought_isSign) digits_isAscii)

theorem pointed_isAscii : Span.IsAscii pointed :=
  Span.followedBy_isAscii fraction_isAscii exponent_isAscii

theorem decimal_isAscii : Span.IsAscii decimal :=
  Span.followedBy_isAscii digits_isAscii pointed_isAscii

theorem hexadecimal_isAscii : Span.IsAscii hexadecimal :=
  Span.opened_isAscii (Byte.isSought_eq rfl)
    (Span.opened_isAscii Byte.isSought_isRadixMark (Span.run_isAscii Byte.isSought_isHexDigit))

end Number

/-! ## Comments -/

namespace Comment

theorem isText_line {s : Bytes} (h : IsText s) : IsText (line s) := by
  rcases line_eq s with ⟨body, tail, hfirst, hline⟩ | ⟨-, hline⟩
  · have hnewline : IsText [Byte.newline] := Utf8.isText_nil.cons (by decide)
    rw [hfirst.split] at h
    obtain ⟨hbody, -⟩ := h.of_append_cons (by decide)
    rw [hline]
    exact hbody.append hnewline
  · rwa [hline]

theorem isText_block {s : Bytes} (h : IsText s) : IsText (block s).1 := by
  rcases block_eq s with ⟨body, tail, hfirst, hblock⟩ | ⟨-, hblock⟩
  · have hclosing : IsText [Byte.star, Byte.slash] :=
      (Utf8.isText_nil.cons (by decide)).cons (by decide)
    rw [hfirst.split] at h
    obtain ⟨hbody, -⟩ := h.of_append_cons (by decide)
    rw [hblock]
    exact hbody.append hclosing
  · rwa [hblock]

end Comment

/-! ## Literals -/

theorem Escape.decode_lt {c : UInt8} (hc : c < 0x80) : decode c < 0x80 :=
  Byte.forall_of_lt (P := fun c => c < 0x80 → decode c < 0x80) (by decide +kernel) c hc

theorem Escape.decode_of_le {c : UInt8} (hc : 0x80 ≤ c) : decode c = c :=
  Byte.forall_of_lt (P := fun c => 0x80 ≤ c → decode c = c) (by decide +kernel) c hc

namespace Quoted

section
variable {d : UInt8} (hd : d < 0x80)
include hd

/-- What items denote is their source, revised: delimiters that are doubled and backslashes
    are left out, and a code from ASCII is exchanged. -/
theorem revises_meaning (items : List Item) :
    Revises (items.flatMap (Item.source d)) (items.map (Item.meaning d)) := by
  induction items with
  | nil => exact .nil
  | cons item items ih =>
    cases item with
    | plain b => exact .keep b ih
    | doubled => exact .leaveOut hd (.keep d ih)
    | escaped c =>
      refine .leaveOut (by decide) ?_
      by_cases hc : c < 0x80
      · exact .exchange hc (Escape.decode_lt hc) ih
      · -- The backslash stands before a character outside ASCII, which stays whole.
        have hmeaning : Item.meaning d (.escaped c) = c := Escape.decode_of_le (UInt8.not_lt.1 hc)
        rw [List.map_cons, hmeaning]
        exact .keep c ih

/-- The items of a body are written as a text: behind them comes a byte from ASCII, or the
    end of the input. -/
theorem isText_items {s : Bytes} (h : IsText s) :
    IsText ((body d s).items.flatMap (Item.source d)) := by
  cases hending : (body d s).ending with
  | closed =>
    obtain ⟨tail, htail⟩ := body_source_isPrefix d s
    rw [Body.source, hending, Ending.source, List.append_assoc, List.singleton_append] at htail
    rw [← htail] at h
    exact (h.of_append_cons hd).1
  | unclosed =>
    have hs := source_of_open (s := s) (d := d) (by simp [hending])
    rw [Body.source, hending, Ending.source, List.append_nil] at hs
    rwa [hs]
  | brokenEscape =>
    have hs := source_of_open (s := s) (d := d) (by simp [hending])
    rw [Body.source, hending, Ending.source] at hs
    rw [← hs] at h
    exact (h.of_append_cons (by decide)).1

theorem isText_value {s : Bytes} (h : IsText s) : IsText ((body d s).value d) :=
  (revises_meaning hd _).isText (isText_items hd h)

end

end Quoted

/-! ## Lexemes -/

/-- What a lexeme carries, if it is bytes, is a text. -/
def Content.IsText (content : Content) : Prop :=
  ∀ v, content = .text v → Utf8.IsText v

theorem Content.isText_text {v : Bytes} (h : Utf8.IsText v) : (Content.text v).IsText := by
  intro v' hv
  cases hv
  exact h

theorem Content.isText_absent : Content.absent.IsText :=
  fun _ h => nomatch h

theorem Content.isText_ordinal : Content.ordinal.IsText :=
  fun _ h => nomatch h

/-- The value that a token has from such a content is a text: so is a name that is made. -/
theorem Content.IsText.isText_value? {content : Content} (h : content.IsText) {n : Nat} {v : Bytes}
    (hv : content.value? n = some v) : Utf8.IsText v := by
  cases content with
  | absent => cases hv
  | text bytes => exact h v (congrArg Content.text (Option.some.inj hv))
  | ordinal =>
    cases hv
    exact Utf8.isText_ofString _

namespace Lexeme

/-- A lexeme whose content is a text. -/
def CarriesText (l : Lexeme) : Prop :=
  l.content.IsText

theorem verbatim_carriesText (kind : TokenKind) {source : Bytes} (h : IsText source) :
    (verbatim kind source).CarriesText :=
  Content.isText_text h

theorem carriesText_of_ascii {kind : TokenKind} {source : Bytes} (h : ∀ b ∈ source, b < 0x80) :
    (verbatim kind source).CarriesText :=
  verbatim_carriesText kind (Utf8.isText_of_ascii h)

/-- A byte from ASCII carries itself. -/
theorem carriesText_singleton (kind : TokenKind) {b : UInt8} (hb : b < 0x80) :
    (verbatim kind [b]).CarriesText :=
  verbatim_carriesText kind (Utf8.isText_nil.cons hb)

theorem sign_carriesText (op : Operator) (source : Bytes) : (sign op source).CarriesText :=
  Content.isText_absent

theorem word_carriesText (s : Bytes) : (word s).CarriesText := by
  have hsource := Span.run_isAscii Byte.isSought_isWordByte s
  unfold word
  dsimp only
  split
  · next k hk => exact Content.isText_text (bytes_of_ofSpelling? hk ▸ Utf8.isText_ofString _)
  · exact carriesText_of_ascii hsource

theorem number_carriesText (s : Bytes) : (number s).CarriesText := by
  unfold number
  split
  · exact carriesText_of_ascii (Number.hexadecimal_isAscii s)
  · split
    · exact carriesText_of_ascii (Number.digits_isAscii s)
    · exact carriesText_of_ascii (Number.decimal_isAscii s)

theorem named_carriesText (s : Bytes) : (named s).CarriesText := by
  have hname := Span.run_isAscii Byte.isSought_isNameByte s
  unfold named
  split
  · exact carriesText_singleton _ (by decide)
  · exact carriesText_of_ascii (List.forall_mem_cons.2 ⟨by decide, hname⟩)

theorem afterDot_carriesText (s : Bytes) : (afterDot s).CarriesText := by
  unfold afterDot
  split
  · exact carriesText_of_ascii (Number.pointed_isAscii _)
  · exact sign_carriesText _ _

/-- A comment to the end of the line, which a byte from ASCII opens when it comes twice. -/
theorem lineComment_carriesText {b : UInt8} (hb : b < 0x80) {s : Bytes} (hs : IsText s) :
    (lineComment [b, b] s).CarriesText :=
  Content.isText_text (((Comment.isText_line hs).cons hb).cons hb)

theorem blockComment_carriesText {s : Bytes} (hs : IsText s) : (blockComment s).CarriesText :=
  Content.isText_text (((Comment.isText_block hs).cons (by decide)).cons (by decide))

theorem afterSlash_carriesText {s : Bytes} (hs : IsText s) : (afterSlash s).CarriesText := by
  rcases afterSlash_cases s with ⟨r, rfl, h⟩ | ⟨r, rfl, h⟩ | ⟨-, -, h⟩
  · exact h ▸ lineComment_carriesText (by decide) (hs.of_cons (by decide))
  · exact h ▸ blockComment_carriesText (hs.of_cons (by decide))
  · exact h ▸ sign_carriesText _ _

theorem afterDash_carriesText {s : Bytes} (hs : IsText s) : (afterDash s).CarriesText := by
  rcases afterDash_cases s with ⟨r, rfl, h⟩ | ⟨-, h⟩
  · exact h ▸ lineComment_carriesText (by decide) (hs.of_cons (by decide))
  · exact h ▸ sign_carriesText _ _

theorem afterLess_carriesText (s : Bytes) : (afterLess s).CarriesText := by
  unfold afterLess
  split <;> exact sign_carriesText _ _

theorem afterGreater_carriesText (s : Bytes) : (afterGreater s).CarriesText := by
  unfold afterGreater
  split <;> exact sign_carriesText _ _

theorem afterBang_carriesText (s : Bytes) : (afterBang s).CarriesText := by
  unfold afterBang
  split
  · exact sign_carriesText _ _
  · exact carriesText_singleton _ (by decide)

theorem quoted_carriesText (kind : TokenKind) {d : UInt8} (hd : d < 0x80) {s : Bytes}
    (hs : IsText s) : (quoted kind d s).CarriesText :=
  Content.isText_text (Quoted.isText_value hd hs)

/-- **Lexemes**: what starts with a byte from ASCII, with a text after it, carries a text. -/
theorem read_carriesText {b : UInt8} (hb : b < 0x80) {rest : Bytes} (h : IsText rest) :
    (read b rest).CarriesText := by
  unfold read
  cases Opening.of b with
  | letter => exact word_carriesText _
  | digit => exact number_carriesText _
  | colon => exact named_carriesText rest
  | single op => exact sign_carriesText op [b]
  | question => exact Content.isText_ordinal
  | dot => exact afterDot_carriesText rest
  | slash => exact afterSlash_carriesText h
  | dash => exact afterDash_carriesText h
  | less => exact afterLess_carriesText rest
  | greater => exact afterGreater_carriesText rest
  | bang => exact afterBang_carriesText rest
  | delimiter kind => exact quoted_carriesText kind hb h
  | stray => exact carriesText_singleton _ hb

/-- A byte that is not from ASCII starts nothing. -/
theorem read_of_le {b : UInt8} (hb : 0x80 ≤ b) (rest : Bytes) :
    read b rest = verbatim .malformed [b] := by
  have hstray : Opening.of b = .stray :=
    Byte.forall_of_lt (P := fun b => 0x80 ≤ b → Opening.of b = .stray) (by decide +kernel) b hb
  rw [read, hstray]

end Lexeme

/-! ## The whole text -/

/-- A byte of a character that stands where a token should start. -/
def Lexeme.IsTorn (l : Lexeme) : Prop :=
  ∃ b, 0x80 ≤ b ∧ l = .verbatim .malformed [b]

/-- What is cut off the end of a text carries texts, torn bytes apart.  The end need not
    begin with a character: the lexer may go on within one. -/
theorem Cuts.carriesText {before s : Bytes} {gs : List Segment} (h : Cuts s gs)
    (hs : IsText (before ++ s)) : ∀ g ∈ gs, g.lexeme.CarriesText ∨ g.lexeme.IsTorn := by
  induction h generalizing before with
  | blank => exact fun g hg => nomatch hg
  | @lexeme blanks more tail b gs _ _ _ _ ih =>
    have hrest : IsText ((before ++ blanks ++ b :: more) ++ tail) := by simpa using hs
    rintro g (_ | ⟨_, hg⟩)
    · by_cases hb : b < 0x80
      · rw [← List.append_assoc] at hs
        exact .inl (Lexeme.read_carriesText hb (hs.of_append_cons hb).2)
      · exact .inr ⟨b, UInt8.not_lt.1 hb, Lexeme.read_of_le (UInt8.not_lt.1 hb) _⟩
    · exact ih hrest g hg

/-- The value of a token of a text is a text, unless the token is a torn byte. -/
theorem isText_of_mem_scanned {sql : String} {x : Scanned} (hx : x ∈ scanned (ofString sql))
    {v : Bytes} (hv : x.token.value = some v) :
    IsText v ∨ x.token.isMalformed = true ∧
      ∃ b, 0x80 ≤ b ∧ v = [b] ∧ x.source (ofString sql) = [b] := by
  have htext : IsText ([] ++ ofString sql) := Utf8.isText_ofString sql
  obtain ⟨gs, hgs⟩ := exists_cuts (ofString sql)
  rcases hgs.exists_segment_of_mem hx with ⟨-, hnone, -⟩ | ⟨g, hg, hkind, hvalue, hsource⟩
  · rw [hv] at hnone
    cases hnone
  · rw [hv] at hvalue
    rcases hgs.carriesText htext g hg with hcarries | ⟨b, hb, hlexeme⟩
    · exact .inl (hcarries.isText_value? hvalue.symm)
    · rw [hlexeme] at hkind hvalue hsource
      exact .inr ⟨Token.isMalformed_iff.2 hkind, b, hb, Option.some.inj hvalue, hsource⟩

/-- A literal or a block comment without its end. -/
def Scanned.IsUnterminated (input : Bytes) (x : Scanned) : Prop :=
  x.token.isMalformed = true ∧
    ((∃ d, Byte.isQuote d = true ∧ (x.source input).head? = some d) ∨
      [Byte.slash, Byte.star] <+: x.source input)

/-- What has no end starts with a byte from ASCII. -/
theorem Scanned.IsUnterminated.exists_head? {input : Bytes} {x : Scanned}
    (h : x.IsUnterminated input) : ∃ d, d < 0x80 ∧ (x.source input).head? = some d := by
  obtain ⟨-, ⟨d, hd, hhead⟩ | ⟨rest, hrest⟩⟩ := h
  · rcases Byte.isQuote_cases hd with rfl | rfl | rfl <;> exact ⟨_, by decide, hhead⟩
  · exact ⟨Byte.slash, by decide, by simp [← hrest]⟩

/-- The characters of a token that is well-formed, or that has no end, are all of it. -/
theorem ofString_text_of_mem_scanned {sql : String} {x : Scanned}
    (hx : x ∈ scanned (ofString sql))
    (h : x.token.isMalformed = false ∨ x.IsUnterminated (ofString sql)) :
    ofString x.token.text = x.token.bytes := by
  rw [Token.text, Token.bytes]
  cases hv : x.token.value with
  | none => exact Utf8.isText_nil.ofString_toStringLossy
  | some v =>
    rcases isText_of_mem_scanned hx hv with htext | ⟨hmalformed, b, hb, -, hsource⟩
    · exact htext.ofString_toStringLossy
    · -- A torn byte is neither.
      rcases h with hwell | hopen
      · rw [hmalformed] at hwell
        cases hwell
      · obtain ⟨d, hd, hhead⟩ := hopen.exists_head?
        rw [hsource] at hhead
        cases hhead
        exact absurd hd (UInt8.not_lt.2 hb)

/-- A statement whose placeholders are listed has no malformed token. -/
theorem wellFormed_of_placeholderNames {sql : String} {names : List String}
    (h : Lexer.placeholderNames sql = .ok names) :
    ∀ x ∈ scanned (ofString sql), x.token.isMalformed = false := by
  have hno := Lexer.failure?_placeholderNames sql
  rw [h, syntaxError?] at hno
  have hfind := Option.map_eq_none_iff.1 hno.symm
  intro x hx
  simpa using List.find?_eq_none.1 hfind x hx

/-- **Texts stay texts**: in the scan stream of a text every value is a text, but for that
    of a malformed token which is a single byte of a character outside ASCII.  So the
    characters of a token are all of it if the token is well-formed, and also if it is a
    literal or a comment without its end; and so are the names of the placeholders. -/
theorem scanned_isText (sql : String) :
    (∀ x ∈ scanned (ofString sql), ∀ v, x.token.value = some v →
      IsText v ∨ x.token.isMalformed = true ∧
        ∃ b, 0x80 ≤ b ∧ v = [b] ∧ x.source (ofString sql) = [b]) ∧
    (∀ x ∈ scanned (ofString sql),
      x.token.isMalformed = false ∨ x.IsUnterminated (ofString sql) →
        ofString x.token.text = x.token.bytes) ∧
    ∀ names, Lexer.placeholderNames sql = .ok names →
      names.map ofString = (placeholdersOf (ofString sql)).map fun x => x.token.bytes := by
  refine ⟨fun x hx v hv => isText_of_mem_scanned hx hv,
    fun x hx h => ofString_text_of_mem_scanned hx h, ?_⟩
  intro names hnames
  have hwell := wellFormed_of_placeholderNames hnames
  rw [placeholderNames_eq hwell] at hnames
  cases hnames
  rw [List.map_map]
  refine List.map_congr_left fun x hx => ?_
  obtain ⟨hmem, -⟩ := List.mem_filter.1 hx
  exact ofString_text_of_mem_scanned hmem (.inl (hwell x hmem))

/-- A backslash before the first byte of a character, and the character by itself. -/
example : (scanned (ofString "'\\é' é")).map (fun x => (x.token.kind, x.token.value)) =
    [(.string, some [0xc3, 0xa9]), (.malformed, some [0xc3]), (.malformed, some [0xa9]),
      (.endOfInput, none)] := by
  decide +kernel

end SqlTokens
