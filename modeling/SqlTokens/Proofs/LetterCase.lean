import Mathlib.Data.List.Forall2
import SqlTokens.Proofs.Lowering
import SqlTokens.Proofs.Numbering

/-! # Letter case

    Inputs that differ in the case of letters only are cut at the same places into tokens
    of the same kinds, and where a token has its source for a text, the texts differ in
    the case of letters only.  Codes of escapes are the exception: there the case matters
    to what a literal denotes, but not to where it ends.

    * **Segments**: `Cuts.lower` — the input in lower case is cut alike.
    * **Outlines**: `outline_scanned_lower` — its tokens are the same, texts apart.
    * **Texts**: `Scanned.value_of_isBare` — what is written without quotes says what
      stands in the input.
    * **Two inputs**: `scanned_letterCase`. -/

namespace SqlTokens

/-! ## Segments -/

/-- `g'` is what becomes of `g` in lower case. -/
structure Segment.Lowers (g g' : Segment) : Prop where
  blanks : g'.blanks.length = g.blanks.length
  lexeme : g.lexeme.Lowers g'.lexeme
  ordinal : g'.lexeme.content = .ordinal ↔ g.lexeme.content = .ordinal

/-- Only a `?` becomes a `?` in lower case. -/
theorem lower_eq_question_iff (s : Bytes) : lower s = [Byte.question] ↔ s = [Byte.question] := by
  match s with
  | [] => simp
  | [b] => simp [Byte.toLower_eq_iff (c := Byte.question) rfl]
  | b :: c :: s => simp

/-- **Segments**: the input in lower case is cut alike. -/
theorem Cuts.lower {s : Bytes} {gs : List Segment} (h : Cuts s gs) :
    ∃ gs', Cuts (lower s) gs' ∧ List.Forall₂ Segment.Lowers gs gs' := by
  have hblank : ∀ {s : Bytes}, IsBlank s → IsBlank (SqlTokens.lower s) := by
    intro s hs b hb
    obtain ⟨c, hc, rfl⟩ := List.mem_map.1 hb
    rw [Byte.isCaseless_isBlank]
    exact hs c hc
  induction h with
  | blank hs => exact ⟨[], .blank (hblank hs), .nil⟩
  | @lexeme blanks more tail b gs hs hb hr ht ih =>
    obtain ⟨gs', hcuts, hgs⟩ := ih
    have hread := Lexeme.read_lowers b (more ++ tail)
    rw [lower_append] at hread
    have hsource := hread.source
    rw [hr, lower_cons] at hsource
    have hb' : Byte.isBlank (Byte.toLower b) = false := by rw [Byte.isCaseless_isBlank, hb]
    refine ⟨⟨SqlTokens.lower blanks, Lexeme.read _ _⟩ :: gs', ?_,
      .cons ⟨length_lower blanks, hread, ?_⟩ hgs⟩
    · rw [lower_append, lower_cons, lower_append]
      exact .lexeme (hblank hs) hb' hsource hcuts
    · rw [Lexeme.content_eq_ordinal_iff, Lexeme.content_eq_ordinal_iff, hread.source,
        lower_eq_question_iff]

/-! ## Outlines -/

/-- A token without its text: what it is, where it lies, and how many `?` there are so
    far. -/
structure Outline where
  kind : TokenKind
  position : Nat
  stop : Nat
  ordinals : Nat
  deriving DecidableEq

def Scanned.outline (x : Scanned) : Outline :=
  ⟨x.token.kind, x.token.position, x.stop, x.ordinals⟩

namespace Segment

theorem outline_layout {gs gs' : List Segment} (h : List.Forall₂ Lowers gs gs') (p n : Nat) :
    (layout p n gs').map Scanned.outline = (layout p n gs).map Scanned.outline := by
  induction h generalizing p n with
  | nil => rfl
  | @cons g g' gs gs' hg hgs ih =>
    have hlength : g'.lexeme.source.length = g.lexeme.source.length := by
      rw [hg.lexeme.source, length_lower]
    have hcount : g'.lexeme.content.count n = g.lexeme.content.count n := by
      rw [count_eq, count_eq]
      simp only [hg.ordinal]
    simp only [layout, List.map_cons, Scanned.outline, hg.blanks, hg.lexeme.kind, hlength, hcount]
    exact congrArg _ (ih _ _)

theorem ordinals_eq_of_lowers {gs gs' : List Segment} (h : List.Forall₂ Lowers gs gs') :
    ordinals gs' = ordinals gs := by
  induction h with
  | nil => rfl
  | @cons g g' gs gs' hg hgs ih =>
    rw [ordinals, ordinals] at ih
    rw [ordinals, ordinals, List.countP_cons, List.countP_cons, ih]
    simp only [hg.ordinal]

end Segment

/-- An input in lower case has the same tokens, but for their texts. -/
theorem outline_scanned_lower (input : Bytes) :
    (scanned (lower input)).map Scanned.outline = (scanned input).map Scanned.outline := by
  obtain ⟨gs, hgs⟩ := exists_cuts input
  obtain ⟨gs', hgs', hlowers⟩ := hgs.lower
  rw [scanned_eq_layout hgs, scanned_eq_layout hgs', Segment.stream, Segment.stream,
    List.map_append, List.map_append, Segment.outline_layout hlowers,
    Segment.ordinals_eq_of_lowers hlowers, length_lower]

/-! ## Texts -/

/-- A token that is written without quotes and has its source for a text: a number, a
    comment, a named placeholder, or a name or malformed part that starts with no quote. -/
def Scanned.IsBare (input : Bytes) (x : Scanned) : Prop :=
  match x.token.kind with
  | .number => True
  | .comment => True
  | .placeholder => x.isQuestion input = false
  | .identifier => (x.source input).head?.any Byte.isQuote = false
  | .malformed => (x.source input).head?.any Byte.isQuote = false
  | _ => False

/-- What is written without quotes says what stands in the input. -/
theorem Scanned.value_of_isBare {input : Bytes} {x : Scanned} (hx : x ∈ scanned input)
    (h : x.IsBare input) : x.token.value = some (x.source input) := by
  unfold IsBare at h
  rcases spells_of_mem_scanned hx with ⟨hend, -⟩ | ⟨content, hspells, hvalue, -⟩
  · rw [hend] at h
    exact h.elim
  · have hcontent : content = .text (x.source input) := by
      cases hkind : x.token.kind with
      | number => rw [hkind] at hspells; exact hspells
      | comment => rw [hkind] at hspells; exact hspells
      | placeholder =>
        rw [hkind] at h hspells
        rcases hspells with ⟨htext, -⟩ | ⟨hsource, -⟩
        · exact htext
        · simp [Scanned.isQuestion, hsource] at h
      | identifier =>
        -- What stands between quotes starts with one.
        rw [hkind] at h hspells
        rcases hspells with htext | ⟨items, hsource, -⟩
        · exact htext
        · rw [hsource] at h
          cases h
      | malformed =>
        rw [hkind] at h hspells
        rcases hspells with htext | ⟨d, hd, items, -, hsource⟩
        · exact htext
        · have hquote : Byte.isQuote d = true := by
            simp only [List.mem_cons, List.not_mem_nil, or_false] at hd
            rcases hd with rfl | rfl | rfl <;> rfl
          have hhead : (x.source input).head? = some d := by
            rcases hsource with hsource | hsource <;> rw [hsource] <;> rfl
          rw [hhead, Option.any_some, hquote] at h
          cases h
      | keyword word => rw [hkind] at h; exact h.elim
      | string => rw [hkind] at h; exact h.elim
      | operator sign => rw [hkind] at h; exact h.elim
      | endOfInput => rw [hkind] at h; exact h.elim
    rw [hvalue, hcontent]
    rfl

/-- The text of a reserved word is its spelling, in lower case. -/
theorem Scanned.value_of_keyword {input : Bytes} {x : Scanned} (hx : x ∈ scanned input)
    {word : Keyword} (h : x.token.kind = .keyword word) :
    x.token.value = some (lower (x.source input)) := by
  rcases spells_of_mem_scanned hx with ⟨hend, -⟩ | ⟨content, hspells, hvalue, -⟩
  · cases h.symm.trans hend
  · rw [h] at hspells
    rw [hvalue, hspells.1]
    rfl

/-- The text of a `?` is the name that is made from its number. -/
theorem Scanned.value_of_isQuestion {input : Bytes} {x : Scanned} (hx : x ∈ scanned input)
    (h : x.isQuestion input = true) : x.token.value = some (ordinalName x.ordinals) := by
  have hsource : x.source input = [Byte.question] := beq_iff_eq.1 h
  rcases spells_of_mem_scanned hx with ⟨-, hnil⟩ | ⟨content, -, hvalue, hordinal⟩
  · rw [hsource] at hnil
    cases hnil
  · rw [hvalue, hordinal.2 hsource]
    rfl

/-! ## Inputs that differ in case -/

/-- `x'`, a token of `input'`, is the token `x` of `input` but for the case of letters. -/
structure Scanned.SameButCase (input input' : Bytes) (x x' : Scanned) : Prop where
  kind : x'.token.kind = x.token.kind
  position : x'.token.position = x.token.position
  stop : x'.stop = x.stop
  ordinals : x'.ordinals = x.ordinals
  source : lower (x'.source input') = lower (x.source input)
  keyword : ∀ word, x.token.kind = .keyword word → x'.token.value = x.token.value
  /-- A `?` is a `?`, under the same name. -/
  question : x.isQuestion input = true →
    x'.isQuestion input' = true ∧ x'.token.value = x.token.value
  /-- Without quotes, both have the text that stands in their own input. -/
  bare : x.IsBare input →
    x'.IsBare input' ∧ x.token.value = some (x.source input) ∧
      x'.token.value = some (x'.source input')
  /-- So these texts are the same but for the case of letters, too. -/
  text : x.IsBare input → x'.token.value.map lower = x.token.value.map lower

theorem lower_slice (input : Bytes) (start stop : Nat) :
    lower (slice input start stop) = slice (lower input) start stop := by
  rw [slice, slice, lower_take, lower_drop]

/-- Two tokens that lie at the same place in inputs that differ in case. -/
theorem Scanned.sameButCase {input input' : Bytes} (h : lower input = lower input')
    {x x' : Scanned} (hx : x ∈ scanned input) (hx' : x' ∈ scanned input')
    (houtline : x.outline = x'.outline) : x.SameButCase input input' x' := by
  obtain ⟨hkind, hposition, hstop, hordinals⟩ := Outline.mk.inj houtline
  have hsource : lower (x.source input) = lower (x'.source input') := by
    rw [source, source, lower_slice, lower_slice, h, hposition, hstop]
  have hquestion : x'.isQuestion input' = x.isQuestion input := by
    rw [Bool.eq_iff_iff, isQuestion, isQuestion, beq_iff_eq, beq_iff_eq,
      ← lower_eq_question_iff (x.source input), hsource, lower_eq_question_iff]
  have hhead : (x'.source input').head?.any Byte.isQuote =
      (x.source input).head?.any Byte.isQuote := by
    rw [← any_head?_lower Byte.isCaseless_isQuote, ← hsource,
      any_head?_lower Byte.isCaseless_isQuote]
  have hbare : x.IsBare input → x'.IsBare input' := by
    unfold IsBare
    rw [hkind, hquestion, hhead]
    exact id
  refine ⟨hkind.symm, hposition.symm, hstop.symm, hordinals.symm, hsource.symm, ?_, ?_, ?_, ?_⟩
  · intro word hword
    rw [value_of_keyword hx hword, value_of_keyword hx' (hkind.symm.trans hword), hsource]
  · intro hq
    have hq' : x'.isQuestion input' = true := hquestion.trans hq
    rw [value_of_isQuestion hx hq, value_of_isQuestion hx' hq', hordinals]
    exact ⟨hq', rfl⟩
  · intro hb
    exact ⟨hbare hb, value_of_isBare hx hb, value_of_isBare hx' (hbare hb)⟩
  · intro hb
    rw [value_of_isBare hx hb, value_of_isBare hx' (hbare hb), Option.map_some, Option.map_some,
      hsource]

/-- **Letter case**: two inputs that differ in the case of letters only have as many
    tokens.  Each of them is of the same kind, starts and stops at the same place, and
    comes behind as many `?`; reserved words have the same text, and so have the `?`,
    whose names are made.  What is written without quotes has the text that stands in
    its own input. -/
theorem scanned_letterCase (x y : Bytes) (h : lower x = lower y) :
    List.Forall₂ (Scanned.SameButCase x y) (scanned x) (scanned y) := by
  have houtline : List.Forall₂ Eq ((scanned x).map Scanned.outline)
      ((scanned y).map Scanned.outline) := by
    rw [← outline_scanned_lower x, h, outline_scanned_lower y]
    exact List.forall₂_refl _
  have hpairs : List.Forall₂ (fun a b => a.outline = b.outline) (scanned x) (scanned y) :=
    List.forall₂_map_right_iff.1 (List.forall₂_map_left_iff.1 houtline)
  obtain ⟨hlength, hzip⟩ := List.forall₂_iff_zip.1 hpairs
  refine List.forall₂_iff_zip.2 ⟨hlength, ?_⟩
  intro a b hab
  obtain ⟨ha, hb⟩ := List.of_mem_zip hab
  exact Scanned.sameButCase h ha hb (hzip hab)

/-- The case of a code of an escape changes what the literal denotes, and no more. -/
theorem scanned_letterCase_escape :
    let x := Utf8.ofString "SELECT'\\N'`A`0XfE,1E5+:Ab.C/*T*/?#'Z"
    let y := Utf8.ofString "sElEcT'\\n'`a`0xFe,1e5+:aB.c/*t*/?#'z"
    lower x = lower y ∧ List.Forall₂ (Scanned.SameButCase x y) (scanned x) (scanned y) ∧
    ((scanned x)[1]?.map fun a => (a.token.value, a.stop)) = some (some [0x4e], 11) ∧
    ((scanned y)[1]?.map fun b => (b.token.value, b.stop)) = some (some [0x0a], 11) := by
  intro x y
  have h : lower x = lower y := by decide +kernel
  exact ⟨h, scanned_letterCase x y h, by decide +kernel, by decide +kernel⟩

end SqlTokens
