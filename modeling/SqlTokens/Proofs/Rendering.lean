import SqlTokens.Proofs.ReadBack
import SqlTokens.Proofs.Visibility

/-! # Statements that are written anew

    The tokens of a statement, without its comments, are written one after the other with
    a space between them.  Reading what is written gives the same tokens in the same
    order: no spelling goes on over a space, and each is read back in front of it.

    * **Rendering**: `render`.
    * **Rows that are read back**: `IsReadable` — of any statement the tokens are such a
      row (`Cuts.isReadable`), and what is rendered of such a row is cut into it again
      (`IsReadable.cuts_render`).
    * **Round trip**: `tokenize_render`. -/

namespace SqlTokens

open Utf8 (ofString)

/-! ## Rendering -/

/-- The tokens written one after the other, with a space between them. -/
def render (tokens : List Token) : Bytes :=
  List.intercalate [Byte.space] (tokens.map Token.spelling)

/-- The tokens written one after the other, with a space before each. -/
def spaced (tokens : List Token) : Bytes :=
  tokens.flatMap fun t => Byte.space :: t.spelling

theorem render_cons (t : Token) (tokens : List Token) :
    render (t :: tokens) = t.spelling ++ spaced tokens := by
  induction tokens generalizing t with
  | nil => rw [render, List.map_singleton, List.intercalate_singleton, spaced, List.flatMap_nil,
      List.append_nil]
  | cons t' tokens ih =>
    have hrender := ih t'
    rw [render, List.map_cons] at hrender
    rw [render, List.map_cons, List.map_cons, List.intercalate_cons_cons, hrender, spaced, spaced,
      List.flatMap_cons, List.append_assoc]
    rfl

theorem atGap_spaced (tokens : List Token) : AtGap (spaced tokens) := by
  cases tokens with
  | nil => exact .inl rfl
  | cons t tokens => exact .inr ⟨_, rfl⟩

/-- Whether a token says something: it is no comment, and not the end of the input. -/
def Token.isWritten (t : Token) : Bool :=
  t.kind != .comment && t.kind != .endOfInput

/-- The tokens of a statement without its comments and its end. -/
def writtenTokens (input : Bytes) : List Token :=
  ((scanned input).map Scanned.token).filter Token.isWritten

/-! ## Rows that are read back -/

/-- Each token is read back in front of what is written of those behind it. -/
inductive IsReadable : List Token → Prop
  | nil : IsReadable []
  | cons {t : Token} {tokens : List Token} (ht : t.ReadsBack (spaced tokens))
      (h : IsReadable tokens) : IsReadable (t :: tokens)

/-- The segments that tokens are rendered as, with `blanks` before the first. -/
def renderedAs (blanks : Bytes) : List Token → List Segment
  | [] => []
  | t :: tokens => ⟨blanks, t.rewritten⟩ :: renderedAs [Byte.space] tokens

/-- A token that is read back is a segment, with the blanks before it. -/
theorem Token.ReadsBack.cuts {t : Token} {tail : Bytes} (h : t.ReadsBack tail) {blanks : Bytes}
    (hblanks : IsBlank blanks) {gs : List Segment} (hgs : Cuts tail gs) :
    Cuts (blanks ++ (t.spelling ++ tail)) (⟨blanks, t.rewritten⟩ :: gs) := by
  obtain ⟨b, more, hspelling, hb, hread⟩ := h
  rw [← hread, hspelling]
  refine .lexeme hblanks hb ?_ hgs
  rw [hread]
  exact hspelling

namespace IsReadable

theorem cuts_spaced {tokens : List Token} (h : IsReadable tokens) :
    Cuts (spaced tokens) (renderedAs [Byte.space] tokens) := by
  -- By induction on the row; a space is the blanks before each token.
  induction h with
  | nil => exact .blank fun b hb => nomatch hb
  | cons ht _ ih => exact ht.cuts (List.forall_mem_singleton.2 rfl) ih

/-- What is rendered of a row that is read back is cut into its tokens. -/
theorem cuts_render {tokens : List Token} (h : IsReadable tokens) :
    Cuts (render tokens) (renderedAs [] tokens) := by
  cases h with
  | nil => exact .blank fun b hb => nomatch hb
  | cons ht h =>
    rw [render_cons]
    exact ht.cuts (List.forall_mem_nil _) h.cuts_spaced

end IsReadable

/-- Nothing is cut into no segments. -/
theorem Cuts.eq_nil {gs : List Segment} (h : Cuts [] gs) : gs = [] := by
  generalize hs : ([] : Bytes) = s at h
  cases h with
  | blank => rfl
  | lexeme => exact absurd hs (by simp)

/-- **Readability**: the tokens that are laid out for an input are read back, if none of
    them is malformed. -/
theorem Cuts.isReadable {s : Bytes} {gs : List Segment} (h : Cuts s gs) {p n : Nat}
    (hwell : ∀ x ∈ Segment.layout p n gs, x.token.isMalformed = false) :
    IsReadable (((Segment.layout p n gs).map Scanned.token).filter Token.isWritten) := by
  induction h generalizing p n with
  | blank => exact .nil
  | @lexeme blanks more tail b gs hblanks hb hsource htail ih =>
    rw [Segment.layout] at hwell ⊢
    obtain ⟨hfirst, hwell⟩ := List.forall_mem_cons.1 hwell
    have hrest := ih hwell
    rw [List.map_cons, List.filter_cons]
    split
    · next hwritten =>
      have hmalformed : (Lexeme.read b (more ++ tail)).kind ≠ .malformed :=
        beq_eq_false_iff_ne.1 hfirst
      have hcomment : (Lexeme.read b (more ++ tail)).kind ≠ .comment := by
        simp only [Token.isWritten, Bool.and_eq_true, bne_iff_ne] at hwritten
        exact hwritten.1
      -- Where nothing is left of the input, nothing more is written.
      refine .cons (Token.readsBack_of_read hb hsource (atGap_spaced _) ?_ hcomment hmalformed _ _)
        hrest
      rintro rfl
      rw [htail.eq_nil]
      rfl
    · exact hrest

/-! ## Round trip -/

/-- What a token says, wherever it stands. -/
def Token.reading (t : Token) : TokenKind × Option Bytes :=
  (t.kind, t.value)

/-- The tokens that segments of a rendering are laid out as say the same. -/
theorem reading_layout_renderedAs (tokens : List Token) (blanks : Bytes) (p n : Nat) :
    (Segment.layout p n (renderedAs blanks tokens)).map (fun x => x.token.reading) =
      tokens.map Token.reading := by
  induction tokens generalizing blanks p n with
  | nil => rfl
  | cons t tokens ih =>
    rw [renderedAs, Segment.layout, List.map_cons, List.map_cons, ih]
    obtain ⟨kind, value, position⟩ := t
    cases value with
    | none => rfl
    | some v => rfl

/-- The scan stream of a rendering says what its tokens say, and then it ends. -/
theorem IsReadable.reading_scanned {tokens : List Token} (h : IsReadable tokens) :
    (scanned (render tokens)).map (fun x => x.token.reading) =
      tokens.map Token.reading ++ [(.endOfInput, none)] := by
  rw [scanned_eq_layout h.cuts_render, Segment.stream, List.map_append, reading_layout_renderedAs]
  rfl

/-- A statement without a malformed token is tokenized into all that is shown of it. -/
theorem Lexer.tokenize_of_wellFormed {input : Bytes}
    (h : ∀ x ∈ scanned input, x.token.isMalformed = false) (shown : Bool) :
    ((start input).showComments shown).tokenize =
      .ok (((scanned input).filter (Scanned.isShown shown)).map Scanned.token) := by
  have hstream : ((start input).showComments shown).stream = scanned input :=
    stream_congr rfl rfl
  have hresult := result_of_wellFormed (hstream.symm ▸ h)
  rw [hstream] at hresult
  exact hresult

/-- The tokens of a statement without a malformed one are read back. -/
theorem isReadable_writtenTokens {input : Bytes}
    (h : ∀ x ∈ scanned input, x.token.isMalformed = false) : IsReadable (writtenTokens input) := by
  obtain ⟨gs, hgs⟩ := exists_cuts input
  have hlayout := scanned_eq_layout hgs
  rw [hlayout, Segment.stream] at h
  have hending : [Scanned.token (.ending (1 + input.length) (0 + Segment.ordinals gs))].filter
      Token.isWritten = [] := rfl
  rw [writtenTokens, hlayout, Segment.stream, List.map_append, List.filter_append,
    List.map_singleton, hending, List.append_nil]
  exact hgs.isReadable fun x hx => h x (List.mem_append_left _ hx)

/-- What is rendered of a statement without a malformed token has none either, and has no
    comment. -/
theorem kind_of_mem_scanned_render {input : Bytes}
    (h : ∀ x ∈ scanned input, x.token.isMalformed = false) {y : Scanned}
    (hy : y ∈ scanned (render (writtenTokens input))) :
    y.token.kind ≠ .malformed ∧ y.token.kind ≠ .comment := by
  have hreading := (isReadable_writtenTokens h).reading_scanned
  have hmem := List.mem_map_of_mem (f := fun x : Scanned => x.token.reading) hy
  rw [hreading, List.mem_append, List.mem_singleton] at hmem
  rcases hmem with hmem | hend
  · -- It says what a token of the statement says, which was neither.
    obtain ⟨t, ht, hsame⟩ := List.mem_map.1 hmem
    have hkind : t.kind = y.token.kind := congrArg Prod.fst hsame
    obtain ⟨hmem, hwritten⟩ := List.mem_filter.1 ht
    obtain ⟨x, hx, rfl⟩ := List.mem_map.1 hmem
    simp only [Token.isWritten, Bool.and_eq_true, bne_iff_ne] at hwritten
    rw [← hkind]
    exact ⟨beq_eq_false_iff_ne.1 (h x hx), hwritten.1⟩
  · have hkind : y.token.kind = .endOfInput := congrArg Prod.fst hend
    rw [hkind]
    exact ⟨nofun, nofun⟩

/-- **Round trip**: let no token of a statement be malformed, and write its tokens anew,
    without the comments and with a space between them.  Then what is written is tokenized,
    with comments or without, into tokens of the same kinds with the same texts, in the
    same order, and the end. -/
theorem tokenize_render (input : Bytes) (h : ∀ x ∈ scanned input, x.token.isMalformed = false)
    (shown : Bool) :
    ∃ tokens, ((Lexer.start (render (writtenTokens input))).showComments shown).tokenize =
        .ok tokens ∧
      tokens.map Token.reading =
        (writtenTokens input).map Token.reading ++ [(.endOfInput, none)] := by
  have hkinds := fun y hy => kind_of_mem_scanned_render (y := y) h hy
  have hwell : ∀ y ∈ scanned (render (writtenTokens input)), y.token.isMalformed = false :=
    fun y hy => beq_false_of_ne (hkinds y hy).1
  have hshown : (scanned (render (writtenTokens input))).filter (Scanned.isShown shown) =
      scanned (render (writtenTokens input)) := by
    rw [List.filter_eq_self]
    intro y hy
    simp [Scanned.isShown, (hkinds y hy).2]
  refine ⟨_, Lexer.tokenize_of_wellFormed hwell shown, ?_⟩
  rw [hshown, List.map_map]
  exact (isReadable_writtenTokens h).reading_scanned

/-- A reserved word in upper case, names between backticks that need them and that do not,
    numbers without digits, a sign with two spellings and a placeholder without a name. -/
theorem tokenize_render_odd :
    (∀ x ∈ scanned (ofString "SELECT `a``\\\\ b`, `c`,``/**/,0x,1e+,.5 !=?,:v1-- d"),
      x.token.isMalformed = false) ∧
    render (writtenTokens (ofString "SELECT `a``\\\\ b`, `c`,``/**/,0x,1e+,.5 !=?,:v1-- d")) =
      ofString "select `a``\\\\ b` , c , `` , 0x , 1e+ , .5 <> :v1 , :v1" ∧
    ∃ tokens, ((Lexer.start (ofString
        "select `a``\\\\ b` , c , `` , 0x , 1e+ , .5 <> :v1 , :v1")).showComments true).tokenize =
        .ok tokens ∧
      tokens.map Token.reading = (writtenTokens
        (ofString "SELECT `a``\\\\ b`, `c`,``/**/,0x,1e+,.5 !=?,:v1-- d")).map Token.reading ++
          [(.endOfInput, none)] := by
  have h : ∀ x ∈ scanned (ofString "SELECT `a``\\\\ b`, `c`,``/**/,0x,1e+,.5 !=?,:v1-- d"),
      x.token.isMalformed = false := by decide +kernel
  have hrender : render (writtenTokens
      (ofString "SELECT `a``\\\\ b`, `c`,``/**/,0x,1e+,.5 !=?,:v1-- d")) =
      ofString "select `a``\\\\ b` , c , `` , 0x , 1e+ , .5 <> :v1 , :v1" := by decide +kernel
  have hround := tokenize_render
    (ofString "SELECT `a``\\\\ b`, `c`,``/**/,0x,1e+,.5 !=?,:v1-- d") h true
  rw [hrender] at hround
  exact ⟨h, hrender, hround⟩

end SqlTokens
