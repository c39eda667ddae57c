import SqlTokens.Proofs.Coverage
import SqlTokens.Proofs.Utf8

/-! # The numbers of placeholders

    Each `?` that is a token gets a number, and the numbers are those from one on, in
    the order of the input (`questions_numbered`).  A placeholder is such a `?`, under
    the name that is made from its number, or is written with its name; that it may be
    written with the same name changes no number (`isQuestion_iff`). -/

namespace SqlTokens

open Utf8 (ofString)

/-- Whether a token of `input` is a `?`. -/
def Scanned.isQuestion (input : Bytes) (x : Scanned) : Bool :=
  x.source input == [Byte.question]

/-- The tokens of `input` that are a `?`. -/
def questionsOf (input : Bytes) : List Scanned :=
  (scanned input).filter (Scanned.isQuestion input)

/-- The placeholders of `input`, with a name or without. -/
def placeholdersOf (input : Bytes) : List Scanned :=
  (scanned input).filter fun x => x.token.kind == .placeholder

/-! ## Numbers -/

/-- In a layout the `?` have the numbers after `n`, in order. -/
theorem Segment.layout_questions {gs : List Segment} (hgs : ∀ g ∈ gs, g.IsSound)
    (before after : Bytes) (n : Nat) :
    ((layout (before.length + 1) n gs).filter
        (Scanned.isQuestion (before ++ (join gs ++ after)))).map
      (fun x => (x.token.value, x.ordinals)) =
      (List.range' (n + 1) (ordinals gs)).map fun i => (some (ordinalName i), i) := by
  induction gs generalizing before n with
  | nil => rfl
  | cons g gs ih =>
    have hg := hgs g List.mem_cons_self
    have hrest := ih (fun g' hg' => hgs g' (List.mem_cons_of_mem _ hg'))
      (before ++ (g.blanks ++ g.lexeme.source)) (g.lexeme.content.count n)
    have hlen : (before ++ (g.blanks ++ g.lexeme.source)).length + 1 =
        before.length + 1 + g.blanks.length + g.lexeme.source.length := by
      simp only [List.length_append]
      omega
    have hcount := ordinals_cons g gs n
    simp only [join_cons, List.append_assoc, hlen] at hrest ⊢
    have hsource := Scanned.source_middle before g.blanks g.lexeme.source (join gs ++ after)
    rw [layout]
    by_cases hq : g.lexeme.source = [Byte.question]
    · -- The first of the numbers is this one's.
      have ho : g.lexeme.content = .ordinal := hg.ordinal.2 hq
      have hordinals : ordinals (g :: gs) = ordinals gs + 1 := by
        rw [ho, Content.count] at hcount
        omega
      rw [List.filter_cons_of_pos (by rw [Scanned.isQuestion, hsource, hq]; rfl), List.map_cons,
        hrest, hordinals, List.range'_succ, List.map_cons, ho]
      rfl
    · -- Anything else takes no number.
      have ho : g.lexeme.content ≠ .ordinal := fun ho => hq (hg.ordinal.1 ho)
      have hsame : g.lexeme.content.count n = n := by
        rw [count_eq, if_neg ho, Nat.add_zero]
      rw [List.filter_cons_of_neg (by rw [Scanned.isQuestion, hsource]; simpa using hq), hrest,
        hsame]
      rw [hsame] at hcount
      rw [Nat.add_left_cancel hcount]

/-- **Numbering**: the `?` of an input have the numbers from one on, in order, and the
    names that are made from them; and the end knows how many there are. -/
theorem questions_numbered (input : Bytes) :
    (questionsOf input).map (fun x => (x.token.value, x.ordinals)) =
      (List.range' 1 (questionsOf input).length).map (fun i => (some (ordinalName i), i)) ∧
    ∀ x, (scanned input).getLast? = some x → x.ordinals = (questionsOf input).length := by
  obtain ⟨gs, hgs⟩ := exists_cuts input
  obtain ⟨blanks, -, rfl⟩ := hgs.exists_join
  have hlayout := Segment.layout_questions hgs.isSound [] blanks 0
  have hquestions : questionsOf (Segment.join gs ++ blanks) =
      (Segment.layout 1 0 gs).filter (Scanned.isQuestion (Segment.join gs ++ blanks)) := by
    -- The end of the input has no source, so it is no `?`.
    rw [questionsOf, scanned_eq_layout hgs, Segment.stream, List.filter_append]
    simp [Scanned.isQuestion]
  have hlength := congrArg List.length hlayout
  rw [List.length_map, List.length_map, List.length_range'] at hlength
  rw [hquestions]
  constructor
  · rw [← hlength] at hlayout
    exact hlayout
  · intro x hx
    rw [scanned_eq_layout hgs, Segment.stream, List.getLast?_concat, Option.some.injEq] at hx
    rw [← hx]
    exact (Nat.zero_add _).trans hlength.symm

/-! ## Names -/

/-- What is known of a token of the stream by itself. -/
theorem spells_of_mem_scanned {input : Bytes} {x : Scanned} (hx : x ∈ scanned input) :
    (x.token.kind = .endOfInput ∧ x.source input = []) ∨
      ∃ content, x.token.kind.Spells (x.source input) content ∧
        x.token.value = content.value? x.ordinals ∧
        (content = .ordinal ↔ x.source input = [Byte.question]) := by
  obtain ⟨gs, hgs⟩ := exists_cuts input
  rcases hgs.exists_segment_of_mem hx with ⟨hkind, -, hsource⟩ | ⟨g, hg, hkind, hvalue, hsource⟩
  · exact .inl ⟨hkind, hsource⟩
  · have hsound := hgs.isSound g hg
    rw [hkind, hsource]
    exact .inr ⟨g.lexeme.content, hsound.spelled, hvalue, hsound.ordinal⟩

theorem isNamed_head? {source : Bytes} (h : IsNamed source) : source.head? = some Byte.colon := by
  obtain ⟨name, rfl, -⟩ := h
  rfl

/-- A `?` is a placeholder that does not start with a colon, and nothing else is. -/
theorem isQuestion_iff {input : Bytes} {x : Scanned} (hx : x ∈ scanned input) :
    x.isQuestion input = true ↔
      x.token.kind = .placeholder ∧ (x.source input).head? ≠ some Byte.colon := by
  rw [Scanned.isQuestion, beq_iff_eq]
  rcases spells_of_mem_scanned hx with ⟨hkind, hsource⟩ | ⟨content, hspells, -, hordinal⟩
  · simp [hkind, hsource]
  · constructor
    · -- No other kind is spelled with a text that is counted.
      intro hq
      have ho := hordinal.2 hq
      rw [hq] at hspells ⊢
      subst ho
      refine ⟨?_, by decide⟩
      cases hk : x.token.kind <;> simp_all [TokenKind.Spells, IsLiteral, IsCutOff]
    · rintro ⟨hkind, hhead⟩
      rw [hkind] at hspells
      rcases hspells with ⟨-, hnamed⟩ | ⟨hq, -⟩
      · exact absurd (isNamed_head? hnamed) hhead
      · exact hq

theorem Byte.lt_of_isNameByte {b : UInt8} (h : isNameByte b = true) : b < 0x80 := by
  simp only [isNameByte, isWordByte, isLetter, isDigit] at h
  grind [UInt8.le_iff_toNat_le, UInt8.lt_iff_toNat_lt]

/-- The value of a placeholder is a text: its name as it is written, or the name that is
    made for it. -/
theorem value_of_placeholder {input : Bytes} {x : Scanned} (hx : x ∈ placeholdersOf input) :
    x.token.value = some (ofString x.token.text) := by
  obtain ⟨hmem, hkind⟩ := List.mem_filter.1 hx
  rw [beq_iff_eq] at hkind
  rw [Token.text, Token.bytes]
  rcases spells_of_mem_scanned hmem with ⟨hend, -⟩ | ⟨content, hspells, hvalue, -⟩
  · cases hkind.symm.trans hend
  · rw [hkind] at hspells
    rcases hspells with ⟨rfl, name, hsource, -, hname⟩ | ⟨-, rfl⟩
    · -- Bytes need not be a text, but those of a name are from ASCII.
      have hascii : ∀ b ∈ x.source input, b < 0x80 := by
        rw [hsource]
        exact List.forall_mem_cons.2 ⟨by decide, fun b hb => Byte.lt_of_isNameByte (hname b hb)⟩
      rw [hvalue]
      exact congrArg some (Utf8.ofString_toStringLossy hascii).symm
    · rw [hvalue]
      exact congrArg (fun s => some (ofString s)) (Utf8.toStringLossy_ofString _).symm

end SqlTokens
