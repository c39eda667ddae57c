import SqlTokens.Proofs.Stepwise.Session
import SqlTokens.Proofs.Stream

/-! # Safety of sessions

    Whatever a lexer is asked to do, in whatever order, it only ever goes forward
    over its input, byte by byte, and never asks for a byte behind the end.

    * **One step**: `Lexer.perform_passes` — a command passes some of the bytes that
      are left, and counts no more placeholders than bytes.
    * **Invariant**: `Lexer.IsSound`, which holds of a fresh lexer and is kept when
      bytes are passed (`Lexer.IsSound.of_passes`).
    * **Whole runs**: `Lexer.session_isSafe`. -/

namespace SqlTokens

/-! ## Passing bytes -/

/-- `s'` is `s` after it passed some bytes, among them some placeholders. -/
def Scanner.Passes (s s' : Scanner) : Prop :=
  ∃ passed, s.cursor.rest = passed ++ s'.cursor.rest ∧
    s'.position = s.position + passed.length ∧
    s.ordinals ≤ s'.ordinals ∧ s'.ordinals ≤ s.ordinals + passed.length

namespace Scanner.Passes

theorem refl (s : Scanner) : s.Passes s :=
  ⟨[], rfl, rfl, Nat.le_refl _, Nat.le_refl _⟩

theorem trans {s₁ s₂ s₃ : Scanner} (h : s₁.Passes s₂) (h' : s₂.Passes s₃) : s₁.Passes s₃ := by
  obtain ⟨x, hrest, hposition, hle, hcount⟩ := h
  obtain ⟨y, hrest', hposition', hle', hcount'⟩ := h'
  refine ⟨x ++ y, ?_, ?_, Nat.le_trans hle hle', ?_⟩
  · rw [hrest, hrest', List.append_assoc]
  · rw [List.length_append]
    omega
  · rw [List.length_append]
    omega

theorem position_le {s s' : Scanner} (h : s.Passes s') : s.position ≤ s'.position := by
  obtain ⟨x, -, hposition, -⟩ := h
  omega

end Scanner.Passes

theorem Scanner.next_passes (s : Scanner) : s.Passes s.next.2 := by
  obtain ⟨⟨rest, p⟩, n⟩ := s
  rcases blank_or_lexeme rest with hs | ⟨blanks, b, more, tail, rfl, hs, hb, hr⟩
  · rw [next_blank hs]
    exact ⟨rest, (List.append_nil _).symm, rfl, Nat.le_refl _, Nat.le_add_right _ _⟩
  · -- A lexeme counts as one placeholder at the most, and has at least one byte.
    rw [next_lexeme hs hb hr]
    have hcount := Segment.count_eq n (Lexeme.read b (more ++ tail)).content
    refine ⟨blanks ++ b :: more, ?_, ?_, ?_, ?_⟩
    · simp
    · show p + blanks.length + (Lexeme.read b (more ++ tail)).source.length =
        p + (blanks ++ b :: more).length
      rw [hr, List.length_append, Nat.add_assoc]
    · show n ≤ Content.count n _
      omega
    · show Content.count n _ ≤ n + (blanks ++ b :: more).length
      simp only [List.length_append, List.length_cons]
      split at hcount <;> omega

namespace Lexer

theorem scan_passes (lx : Lexer) : lx.scanner.Passes lx.scan.2.scanner := by
  unfold scan
  split
  · exact .refl _
  · exact Scanner.next_passes _

/-- To have passed bytes since some scanner is kept. -/
theorem isKept_passes (s : Scanner) : IsKept fun lx => s.Passes lx.scanner where
  scan lx h := h.trans lx.scan_passes
  lastText _ _ h := h

/-- To remember a message moves nothing. -/
theorem Course.scanner_lexer (c : Course) : c.lexer.scanner = c.last.2.scanner := by
  unfold Course.lexer
  split
  · rfl
  · rfl

/-- **One step**: a command passes some of the bytes that are left. -/
theorem perform_passes (lx : Lexer) (command : Command) :
    lx.scanner.Passes (lx.perform command).lexer.scanner := by
  cases command with
  | next => exact (isKept_passes lx.scanner).next lx (.refl _)
  | scan => exact lx.scan_passes
  | tokenize =>
    -- A malformed token is remembered, but the lexer stands where the course ends.
    have hcourse := (isKept_passes lx.scanner).courseOnto .shown Token.isMalformed [] lx (.refl _)
    show lx.scanner.Passes lx.readStatement.lexer.scanner
    rw [Course.scanner_lexer]
    exact hcourse
  | truncate => exact .refl _
  | comments shown => exact .refl _
  | report message => exact .refl _

/-! ## The invariant -/

/-- What holds of a lexer of `input` at all times. -/
structure IsSound (input : Bytes) (lx : Lexer) : Prop where
  /-- What is left is the input from the byte at the position on. -/
  rest : lx.scanner.cursor.rest = input.drop (lx.position - 1)
  position_pos : 1 ≤ lx.position
  position_le : lx.position ≤ input.length + 1
  /-- There are no more placeholders than bytes that were passed. -/
  ordinals_le : lx.ordinals ≤ lx.position - 1

namespace IsSound

theorem start (input : Bytes) (shown : Bool) :
    ((Lexer.start input).showComments shown).IsSound input :=
  ⟨rfl, Nat.le_refl _, Nat.le_add_left _ _, Nat.le_refl _⟩

theorem of_passes {input : Bytes} {lx lx' : Lexer} (h : lx.IsSound input)
    (hp : lx.scanner.Passes lx'.scanner) : lx'.IsSound input := by
  obtain ⟨x, hrest, hposition, -, hcount⟩ := hp
  obtain ⟨hdrop, hpos, hle, hordinals⟩ := h
  have hplace : lx'.position = lx.position + x.length := hposition
  have hnumber : lx'.ordinals ≤ lx.ordinals + x.length := hcount
  have hsplit : x ++ lx'.scanner.cursor.rest = input.drop (lx.position - 1) :=
    hrest.symm.trans hdrop
  -- The bytes that were passed are among those that were left.
  have hfits : x.length ≤ input.length - (lx.position - 1) := by
    have hlength := congrArg List.length hsplit
    rw [List.length_append, List.length_drop] at hlength
    omega
  refine ⟨?_, by omega, by omega, by omega⟩
  have hrest' := congrArg (List.drop x.length) hsplit
  rw [List.drop_left, List.drop_drop] at hrest'
  rw [hrest', hplace]
  congr 1
  omega

/-- Where a sound lexer stands, its position and its number of placeholders tell. -/
theorem scanner_eq {input : Bytes} {lx lx' : Lexer} (h : lx.IsSound input)
    (h' : lx'.IsSound input) (hposition : lx.position = lx'.position)
    (hordinals : lx.ordinals = lx'.ordinals) : lx.scanner = lx'.scanner := by
  have hrest : lx.scanner.cursor.rest = lx'.scanner.cursor.rest := by
    rw [h.rest, h'.rest, hposition]
  obtain ⟨⟨⟨rest, p⟩, n⟩, shows, truncated, text, diagnosis⟩ := lx
  obtain ⟨⟨⟨rest', p'⟩, n'⟩, shows', truncated', text', diagnosis'⟩ := lx'
  cases hrest
  cases hposition
  cases hordinals
  rfl

theorem isKept (input : Bytes) : IsKept (IsSound input) where
  scan lx h := h.of_passes lx.scan_passes
  lastText _ _ h := ⟨h.rest, h.position_pos, h.position_le, h.ordinals_le⟩

end IsSound

/-! ## Whole runs -/

/-- A session passes bytes from each of its commands to the next. -/
theorem session_passes (lx : Lexer) (commands : List Command) :
    (lx :: (lx.session commands).map Outcome.lexer).Pairwise
      fun before after => before.scanner.Passes after.scanner := by
  -- By induction on the commands: the step, and then the run from behind it.
  induction commands generalizing lx with
  | nil => exact List.pairwise_singleton _ _
  | cons command more ih =>
    have hstep := lx.perform_passes command
    have hrun := ih (lx.perform command).lexer
    refine List.pairwise_cons.2 ⟨?_, hrun⟩
    intro after hafter
    rcases List.mem_cons.1 hafter with rfl | hafter
    · exact hstep
    · exact hstep.trans ((List.pairwise_cons.1 hrun).1 after hafter)

/-- **Safety**: no session of a lexer is ever refused a byte.  Before it and after
    each of its commands the lexer is sound, and the position never decreases. -/
theorem session_isSafe (input : Bytes) (shown : Bool) (commands : List Command) :
    let lx := (start input).showComments shown
    let lexers := lx :: (lx.session commands).map Outcome.lexer
    Stepwise.session lx commands = .ok (lx.session commands) ∧
      (∀ lx' ∈ lexers, lx'.IsSound input) ∧
      lexers.Pairwise fun before after => before.position ≤ after.position := by
  intro lx lexers
  have hpasses := lx.session_passes commands
  have hstart : lx.IsSound input := .start input shown
  refine ⟨Stepwise.session_eq lx commands, ?_, ?_⟩
  · -- Every lexer of the session has passed bytes since the first one.
    intro lx' hlx'
    rcases List.mem_cons.1 hlx' with rfl | hlx'
    · exact hstart
    · exact hstart.of_passes ((List.pairwise_cons.1 hpasses).1 lx' hlx')
  · exact hpasses.imp fun h => h.position_le

end Lexer

end SqlTokens
