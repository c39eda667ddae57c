import SqlTokens.Proofs.Stream

/-! # The scan stream covers the input

    Between them, the tokens of the scan stream and the blanks stand for every
    byte of the input once and for nothing else: each token starts where the one
    before it stopped, blanks apart, and its text is what its source spells.

    * **Places**: `place_of_layout` says where a token of a layout lies, and
      `Cuts.exists_segment_of_mem` what segment a token of the stream comes from.
    * **Coverage**: `scanned_covers` — the result, for every input. -/

namespace SqlTokens

/-! ## Places -/

/-- Where the lexer stands after these tokens of its stream. -/
def stopAfter (tokens : List Scanned) : Nat :=
  tokens.getLast?.elim 1 Scanned.stop

theorem stopAfter_layout (n : Nat) (gs : List Segment) :
    stopAfter (Segment.layout 1 n gs) = 1 + (Segment.join gs).length := by
  rcases List.eq_nil_or_concat gs with rfl | ⟨gs, g, rfl⟩
  · rfl
  · rw [List.concat_eq_append, Segment.layout_append, Segment.join_append]
    simp only [stopAfter, Segment.layout, List.getLast?_concat, Option.elim, Segment.join_cons,
      Segment.join_nil, List.append_nil, List.length_append]
    omega

/-- A token of a layout, with the segment that it comes from and its place. -/
theorem place_of_layout {n : Nat} {gs : List Segment} {before after : List Scanned} {x : Scanned}
    (h : Segment.layout 1 n gs = before ++ x :: after) (rest : Bytes) :
    ∃ gs₁ g gs₂, gs = gs₁ ++ g :: gs₂ ∧ before = Segment.layout 1 n gs₁ ∧
      x.token.kind = g.lexeme.kind ∧ x.token.value = g.lexeme.content.value? x.ordinals ∧
      x.ordinals = g.lexeme.content.count (n + Segment.ordinals gs₁) ∧
      x.token.position = stopAfter before + g.blanks.length ∧
      x.stop = x.token.position + g.lexeme.source.length ∧
      slice (Segment.join gs ++ rest) (stopAfter before) x.token.position = g.blanks ∧
      x.source (Segment.join gs ++ rest) = g.lexeme.source := by
  -- The segments are taken apart where the tokens are.
  obtain ⟨gs₁, gs₂, rfl, rfl, hy⟩ := Segment.layout_eq_append h
  cases gs₂ with
  | nil => exact absurd hy (by simp [Segment.layout])
  | cons g gs₂ =>
    obtain ⟨rfl, rfl⟩ := List.cons.inj hy
    refine ⟨gs₁, g, gs₂, rfl, rfl, rfl, rfl, rfl, ?_, rfl, ?_, ?_⟩
    · rw [stopAfter_layout]
    · have := slice_middle (Segment.join gs₁) g.blanks
        (g.lexeme.source ++ Segment.join gs₂ ++ rest)
      simpa [stopAfter_layout, Nat.add_comm, Nat.add_left_comm] using this
    · have := slice_middle (Segment.join gs₁ ++ g.blanks) g.lexeme.source
        (Segment.join gs₂ ++ rest)
      simpa [Scanned.source, Nat.add_comm, Nat.add_left_comm, Nat.add_assoc] using this

/-- A token of the stream is the end, or it comes from one of the segments. -/
theorem Cuts.exists_segment_of_mem {input : Bytes} {gs : List Segment} (h : Cuts input gs)
    {x : Scanned} (hx : x ∈ scanned input) :
    (x.token.kind = .endOfInput ∧ x.token.value = none ∧ x.source input = []) ∨
      ∃ g ∈ gs, x.token.kind = g.lexeme.kind ∧
        x.token.value = g.lexeme.content.value? x.ordinals ∧
        x.source input = g.lexeme.source := by
  obtain ⟨blanks, -, rfl⟩ := h.exists_join
  rw [scanned_eq_layout h, Segment.stream, List.mem_append, List.mem_singleton] at hx
  rcases hx with hx | rfl
  · obtain ⟨before, after, hsplit⟩ := List.append_of_mem hx
    obtain ⟨gs₁, g, gs₂, hg, -, hkind, hvalue, -, -, -, -, hsource⟩ :=
      place_of_layout hsplit blanks
    have hmem : g ∈ gs := by simp [hg]
    exact .inr ⟨g, hmem, hkind, hvalue, hsource⟩
  · exact .inl ⟨rfl, rfl, Scanned.source_ending _ _ _⟩

/-! ## Coverage -/

/-- **Coverage**: the scan stream stands for every byte of the input once.  The end
    comes after the last byte, with blanks before it.  Every other token starts
    behind blanks where the one before it stopped, at a byte that is no blank, and
    takes at least that byte; and its kind, its source and its text belong together. -/
theorem scanned_covers (input : Bytes) :
    ∃ tokens n, scanned input = tokens ++ [.ending (input.length + 1) n] ∧
      IsBlank (slice input (stopAfter tokens) (input.length + 1)) ∧
      ∀ i (h : i < tokens.length),
        let x := tokens[i]
        let before := stopAfter (tokens.take i)
        before ≤ x.token.position ∧ x.token.position < x.stop ∧ x.stop ≤ input.length + 1 ∧
        IsBlank (slice input before x.token.position) ∧
        (∃ b, input[x.token.position - 1]? = some b ∧ Byte.isBlank b = false) ∧
        ∃ content, x.token.kind.Spells (x.source input) content ∧
          x.token.value = content.value? x.ordinals := by
  obtain ⟨gs, hgs⟩ := exists_cuts input
  obtain ⟨blanks, hblanks, rfl⟩ := hgs.exists_join
  -- The blanks at the end of the input are all that no segment takes.
  refine ⟨Segment.layout 1 0 gs, Segment.ordinals gs, ?_, ?_, ?_⟩
  · rw [scanned_eq_layout hgs, Segment.stream, Nat.add_comm 1, Nat.zero_add]
  · have hs := slice_middle (Segment.join gs) blanks []
    rw [List.append_nil, Nat.add_right_comm, ← List.length_append] at hs
    rw [stopAfter_layout, Nat.add_comm 1, hs]
    exact hblanks
  · intro i h x before
    -- The tokens before `x` are a layout, and so are those from it on.
    have hsplit : Segment.layout 1 0 gs =
        (Segment.layout 1 0 gs).take i ++ x :: (Segment.layout 1 0 gs).drop (i + 1) := by
      rw [List.getElem_cons_drop, List.take_append_drop]
    obtain ⟨gs₁, g, gs₂, hg, hbefore, hkind, hvalue, -, hposition, hstop, hblank, hsource⟩ :=
      place_of_layout hsplit blanks
    have hsound := hgs.isSound g (by simp [hg])
    obtain ⟨b, more, hb, hb'⟩ := hsound.starts
    have hlt : x.token.position < x.stop := by
      rw [hstop, hb]
      simp
    refine ⟨by omega, hlt, ?_, hblank ▸ hsound.blanks, ⟨b, ?_, hb'⟩, _, ?_, hvalue⟩
    · rw [hstop, hposition, hbefore, stopAfter_layout, hg]
      simp only [Segment.join_append, Segment.join_cons, List.length_append]
      omega
    · rw [← getElem?_slice_start hlt]
      exact congrArg List.head? (hsource.trans hb)
    · rw [hkind, hsource]
      exact hsound.spelled

end SqlTokens
