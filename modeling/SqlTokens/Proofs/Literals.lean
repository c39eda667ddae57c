import SqlTokens.Proofs.Boundary
import SqlTokens.Proofs.Lookahead

/-! # Where a literal ends

    Behind its opening delimiter a literal is a row of items and the first delimiter that
    is not doubled.  An input has at most one such row at its head; if it has none, all of
    it is a row of items, but for a backslash at its end that has nothing to escape.  The
    lexer takes the literal in the one case and everything that is left in the other: it
    never goes back to a delimiter that it has passed.

    * **Grammar**: `Quoted.IsClosed`, `Quoted.IsOpen`, of which always one holds
      (`Quoted.isClosed_or_isOpen`), in one way (`Quoted.IsClosed.body_eq`,
      `Quoted.IsOpen.body_eq`).
    * **Scanning**: `Lexer.scan_literal`. -/

namespace SqlTokens

open Utf8 (ofString)

namespace Quoted

/-! ## The grammar -/

instance Item.decidableIsProper (d : UInt8) : (item : Item) → Decidable (item.IsProper d)
  | .plain b => inferInstanceAs (Decidable (b ≠ d ∧ b ≠ Byte.backslash))
  | .doubled => .isTrue trivial
  | .escaped _ => .isTrue trivial

/-- `r` starts with a literal between delimiters `d` that was opened before: with these
    items and a closing delimiter, which does not come twice.  Behind it is `tail`. -/
structure IsClosed (d : UInt8) (items : List Item) (tail r : Bytes) : Prop where
  isProper : ∀ i ∈ items, i.IsProper d
  split : r = items.flatMap (Item.source d) ++ d :: tail
  notDoubled : tail.head? ≠ some d

/-- `r` is nothing but these items, or they and a backslash. -/
structure IsOpen (d : UInt8) (items : List Item) (r : Bytes) : Prop where
  isProper : ∀ i ∈ items, i.IsProper d
  split : r = items.flatMap (Item.source d) ∨
    r = items.flatMap (Item.source d) ++ [Byte.backslash]

section
variable {d : UInt8} (hd : d ≠ Byte.backslash)
include hd

theorem IsClosed.body_eq {items : List Item} {tail r : Bytes} (h : IsClosed d items tail r) :
    body d r = ⟨items, .closed⟩ := by
  rw [h.split, body_append h.isProper hd, body_closed h.notDoubled, Body.prepend,
    List.append_nil]

theorem IsOpen.body_eq {items : List Item} {r : Bytes} (h : IsOpen d items r) :
    ∃ ending, ending ≠ .closed ∧ body d r = ⟨items, ending⟩ := by
  rcases h.split with hr | hr
  · have hbody := body_append h.isProper hd []
    rw [List.append_nil, ← hr, body_nil, Body.prepend, List.append_nil] at hbody
    refine ⟨.unclosed, ?_, hbody⟩
    rintro ⟨⟩
  · have hend : body d [Byte.backslash] = ⟨[], .brokenEscape⟩ := by
      simp [body, bodyOnto, hd.symm]
    have hbody := body_append h.isProper hd [Byte.backslash]
    rw [← hr, hend, Body.prepend, List.append_nil] at hbody
    refine ⟨.brokenEscape, ?_, hbody⟩
    rintro ⟨⟩

/-- **Grammar**: a literal ends, or the input does. -/
theorem isClosed_or_isOpen (r : Bytes) :
    (∃ items tail, IsClosed d items tail r) ∨ ∃ items, IsOpen d items r := by
  have hproper : ∀ i ∈ (body d r).items, i.IsProper d := body_isProper r
  cases hending : (body d r).ending with
  | closed =>
    obtain ⟨tail, htail⟩ := body_source_isPrefix d r
    have hnotDoubled := head?_ne_of_closed hd hending htail.symm
    rw [Body.source, hending, Ending.source, List.append_assoc] at htail
    exact .inl ⟨_, tail, hproper, htail.symm, hnotDoubled⟩
  | unclosed =>
    have hr := source_of_open (d := d) (s := r) (by simp [hending])
    rw [Body.source, hending, Ending.source, List.append_nil] at hr
    exact .inr ⟨_, hproper, .inl hr.symm⟩
  | brokenEscape =>
    have hr := source_of_open (d := d) (s := r) (by simp [hending])
    rw [Body.source, hending, Ending.source] at hr
    exact .inr ⟨_, hproper, .inr hr.symm⟩

/-- There is one way to read a literal that ends. -/
theorem IsClosed.unique {items items' : List Item} {tail tail' r : Bytes}
    (h : IsClosed d items tail r) (h' : IsClosed d items' tail' r) :
    items' = items ∧ tail' = tail := by
  have hbody := (h'.body_eq hd).symm.trans (h.body_eq hd)
  obtain rfl : items' = items := congrArg Body.items hbody
  have htail := List.append_cancel_left (h'.split.symm.trans h.split)
  exact ⟨rfl, (List.cons.inj htail).2⟩

theorem IsOpen.unique {items items' : List Item} {r : Bytes} (h : IsOpen d items r)
    (h' : IsOpen d items' r) : items' = items := by
  obtain ⟨ending, -, hbody⟩ := h.body_eq hd
  obtain ⟨ending', -, hbody'⟩ := h'.body_eq hd
  exact congrArg Body.items (hbody'.symm.trans hbody)

theorem IsOpen.not_isClosed {items items' : List Item} {tail r : Bytes} (h : IsOpen d items r) :
    ¬IsClosed d items' tail r := by
  intro h'
  obtain ⟨ending, hending, hbody⟩ := h.body_eq hd
  exact hending (congrArg Body.ending (hbody.symm.trans (h'.body_eq hd)))

end

/-- The kind of a literal between delimiters `d`. -/
def kind (d : UInt8) : TokenKind :=
  if d = Byte.backtick then .identifier else .string

end Quoted

/-! ## Scanning -/

theorem Lexeme.read_isQuote {d : UInt8} (hd : Byte.isQuote d = true) (r : Bytes) :
    read d r = quoted (Quoted.kind d) d r := by
  rcases Byte.isQuote_cases hd with rfl | rfl | rfl <;> rfl

/-- **Literals**: behind an opening delimiter the lexer takes a literal of the delimiter's
    kind, if there is one, and its text is what the items of the literal denote.  If there
    is none, it takes all that is left, as malformed, and the text is what the items of
    that denote.  In both cases the items are the only ones. -/
theorem Lexer.scan_literal {lx : Lexer} {d : UInt8} (hd : Byte.isQuote d = true)
    {blanks r : Bytes} (h : lx.StandsBefore blanks (d :: r)) :
    (∃ items tail, Quoted.IsClosed d items tail r ∧
      (∀ items' tail', Quoted.IsClosed d items' tail' r → items' = items ∧ tail' = tail) ∧
      lx.Takes blanks (d :: (items.flatMap (Quoted.Item.source d) ++ [d])) tail
        (Quoted.kind d) (items.map (Quoted.Item.meaning d))) ∨
    (∀ items tail, ¬Quoted.IsClosed d items tail r) ∧
      ∃ items, Quoted.IsOpen d items r ∧ (∀ items', Quoted.IsOpen d items' r → items' = items) ∧
        lx.Takes blanks (d :: r) [] .malformed (items.map (Quoted.Item.meaning d)) := by
  have hbackslash := Byte.ne_backslash_of_isQuote hd
  have hblank := Byte.isBlank_of_isQuote hd
  rcases Quoted.isClosed_or_isOpen hbackslash r with ⟨items, tail, hclosed⟩ | ⟨items, hopen⟩
  · refine .inl ⟨items, tail, hclosed, fun _ _ => hclosed.unique hbackslash, ?_⟩
    have hread : Lexeme.read d r = ⟨Quoted.kind d,
        d :: (items.flatMap (Quoted.Item.source d) ++ [d]),
        .text (items.map (Quoted.Item.meaning d))⟩ := by
      rw [Lexeme.read_isQuote hd, Lexeme.quoted, hclosed.body_eq hbackslash]
      rfl
    refine h.takes hblank hread ?_
    simp [hclosed.split]
  · refine .inr ⟨fun _ _ => hopen.not_isClosed hbackslash,
      items, hopen, fun _ => hopen.unique hbackslash, ?_⟩
    obtain ⟨ending, hending, hbody⟩ := hopen.body_eq hbackslash
    have hsource : (Quoted.body d r).source d = r :=
      Quoted.source_of_open (by rw [hbody]; exact hending)
    have hread : Lexeme.read d r =
        ⟨.malformed, d :: r, .text (items.map (Quoted.Item.meaning d))⟩ := by
      rw [Lexeme.read_isQuote hd, Lexeme.quoted, hsource, hbody]
      simp [hending, Quoted.Body.value]
    exact h.takes hblank hread (List.append_nil _).symm

/-- A literal with a doubled delimiter and an escaped one, and with quotes of the other
    kinds, behind a blank. -/
theorem Lexer.scan_literal_doubled :
    Byte.isQuote Byte.quote = true ∧
    (start (ofString " 'it''s \\'\"`'?")).StandsBefore [0x20] (ofString "'it''s \\'\"`'?") ∧
    (start (ofString " 'it''s \\'\"`'?")).Takes [0x20] (ofString "'it''s \\'\"`'") (ofString "?")
      .string (ofString "it's '\"`") := by
  have hclosed : Quoted.IsClosed Byte.quote
      [.plain 0x69, .plain 0x74, .doubled, .plain 0x73, .plain 0x20, .escaped Byte.quote,
        .plain Byte.doubleQuote, .plain Byte.backtick] (ofString "?")
      (ofString "it''s \\'\"`'?") := by
    exact ⟨by decide, by decide +kernel, by decide +kernel⟩
  have h : (start (ofString " 'it''s \\'\"`'?")).StandsBefore [0x20]
      (ofString "'it''s \\'\"`'?") := standsBefore_start (List.forall_mem_singleton.2 rfl) _
  refine ⟨rfl, h, ?_⟩
  rcases scan_literal (d := Byte.quote) rfl h with ⟨items, tail, -, hunique, htakes⟩ | ⟨hnone, -⟩
  · obtain ⟨rfl, rfl⟩ := hunique _ _ hclosed
    exact htakes
  · exact absurd hclosed (hnone _ _)

/-- The delimiter at the end of the input is doubled, and the backslash escapes nothing. -/
example : (Lexer.start (ofString "`a``\\")).scan.1 = ⟨.malformed, some (ofString "a`"), 1⟩ := by
  decide +kernel

end SqlTokens
