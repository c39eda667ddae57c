import SqlTokens.Proofs.Boundary
import SqlTokens.Proofs.Lookahead

/-! # Where a comment ends

    A comment ends with the first occurrence of its closing after its opening: of a newline,
    or of `*/`.  Where the closing does not occur, the comment goes on to the end of the
    input; it is malformed then if it is a block.  Nothing else in a comment has a meaning.

    * **First occurrences**: `IsThroughFirst`, looked for from the head on
      (`IsThroughFirst.cons`).
    * **Spans**: `Comment.line_eq`, `Comment.block_eq`.
    * **Forms**: the three ways to write a comment, which are taken alike
      (`Comment.Form.taken_eq`).
    * **Scanning**: `Lexer.scan_comment`. -/

namespace SqlTokens

open Byte (newline)
open Utf8 (ofString)

/-! ## First occurrences -/

/-- The first occurrence of `mark` in `s` comes behind `body`, and `tail` comes behind it. -/
structure IsThroughFirst (mark body tail s : Bytes) : Prop where
  split : s = body ++ (mark ++ tail)
  isFirst : ∀ n < body.length, ¬mark <+: s.drop n

namespace IsThroughFirst

theorem nil (mark tail : Bytes) : IsThroughFirst mark [] tail (mark ++ tail) :=
  ⟨rfl, fun _ hn => absurd hn (Nat.not_lt_zero _)⟩

/-- Where `mark` does not stand at the head, it is looked for behind the first byte. -/
theorem cons {mark body tail s : Bytes} {b : UInt8} (hb : ¬mark <+: b :: s)
    (h : IsThroughFirst mark body tail s) : IsThroughFirst mark (b :: body) tail (b :: s) := by
  refine ⟨congrArg (b :: ·) h.split, ?_⟩
  intro n hn
  cases n with
  | zero => exact hb
  | succ n => exact h.isFirst n (Nat.lt_of_succ_lt_succ hn)

theorem length_le {mark body tail body' tail' s : Bytes} (h : IsThroughFirst mark body tail s)
    (h' : IsThroughFirst mark body' tail' s) : body'.length ≤ body.length := by
  apply Nat.le_of_not_lt
  intro hlt
  apply h'.isFirst body.length hlt
  rw [h.split, List.drop_left]
  exact ⟨tail, rfl⟩

/-- There is no other way to take an input apart at a first occurrence. -/
theorem unique {mark body tail body' tail' s : Bytes} (h : IsThroughFirst mark body tail s)
    (h' : IsThroughFirst mark body' tail' s) : body' = body ∧ tail' = tail := by
  have hlength : body'.length = body.length := Nat.le_antisymm (h.length_le h') (h'.length_le h)
  obtain ⟨hbody, hrest⟩ := List.append_inj (h'.split.symm.trans h.split) hlength
  exact ⟨hbody, List.append_cancel_left hrest⟩

end IsThroughFirst

namespace Comment

/-! ## Spans -/

theorem not_infix_cons {mark s : Bytes} {b : UInt8} (hb : ¬mark <+: b :: s) (h : ¬mark <:+: s) :
    ¬mark <:+: b :: s := by
  intro hinfix
  rcases List.infix_cons_iff.1 hinfix with hhead | hrest
  · exact hb hhead
  · exact h hrest

/-- The rest of a line goes through the first newline, or it is all that is left. -/
theorem line_eq (s : Bytes) :
    (∃ body tail, IsThroughFirst [newline] body tail s ∧ line s = body ++ [newline]) ∨
      ¬[newline] <:+: s ∧ line s = s := by
  -- By induction on what is left of the line.
  induction s with
  | nil => exact .inr ⟨by simp, rfl⟩
  | cons b s ih =>
    rw [line_cons]
    by_cases hb : b = newline
    · subst hb
      rw [if_pos rfl]
      exact .inl ⟨[], s, .nil _ s, rfl⟩
    · have hhead : ¬[newline] <+: b :: s := by
        simpa using Ne.symm hb
      rw [if_neg hb]
      rcases ih with ⟨body, tail, hfirst, hline⟩ | ⟨hnone, hline⟩
      · exact .inl ⟨b :: body, tail, hfirst.cons hhead, congrArg (b :: ·) hline⟩
      · exact .inr ⟨not_infix_cons hhead hnone, congrArg (b :: ·) hline⟩

/-- A block goes through the first `*/`, or it is all that is left and is not closed. -/
theorem block_eq :
    ∀ s : Bytes, (∃ body tail, IsThroughFirst [Byte.star, Byte.slash] body tail s ∧
        block s = (body ++ [Byte.star, Byte.slash], true)) ∨
      ¬[Byte.star, Byte.slash] <:+: s ∧ block s = (s, false)
  | [] => .inr ⟨by simp, rfl⟩
  | [b] => by
    refine .inr ⟨?_, rfl⟩
    intro hinfix
    have hlength := hinfix.length_le
    simp at hlength
  | b :: c :: s => by
    -- Two bytes are looked at, but only the first is passed: the second may be a star.
    have ih := block_eq (c :: s)
    rw [block_cons_cons]
    by_cases h : b = Byte.star ∧ c = Byte.slash
    · obtain ⟨rfl, rfl⟩ := h
      rw [if_pos ⟨rfl, rfl⟩]
      exact .inl ⟨[], s, .nil _ s, rfl⟩
    · have hhead : ¬[Byte.star, Byte.slash] <+: b :: c :: s := by
        simpa [List.cons_prefix_cons, eq_comm] using h
      rw [if_neg h]
      rcases ih with ⟨body, tail, hfirst, hblock⟩ | ⟨hnone, hblock⟩
      · rw [hblock]
        exact .inl ⟨b :: body, tail, hfirst.cons hhead, rfl⟩
      · rw [hblock]
        exact .inr ⟨not_infix_cons hhead hnone, rfl⟩

/-! ## Forms -/

/-- The ways to write a comment. -/
inductive Form where
  /-- From `//` to the end of the line. -/
  | slashes
  /-- From `--` to the end of the line. -/
  | dashes
  /-- Between `/*` and `*/`. -/
  | block
  deriving DecidableEq

namespace Form

def opening : Form → Bytes
  | .slashes => [Byte.slash, Byte.slash]
  | .dashes => [Byte.dash, Byte.dash]
  | .block => [Byte.slash, Byte.star]

def closing : Form → Bytes
  | .slashes | .dashes => [newline]
  | .block => [Byte.star, Byte.slash]

/-- What a comment is that the end of the input cuts off: a line ends there too. -/
def unclosedKind : Form → TokenKind
  | .slashes | .dashes => .comment
  | .block => .malformed

/-- The kind of the token that a comment is, and what it takes behind its opening. -/
def taken (form : Form) (s : Bytes) : TokenKind × Bytes :=
  match form with
  | .slashes | .dashes => (.comment, line s)
  | .block => (if (Comment.block s).2 then .comment else .malformed, (Comment.block s).1)

/-- **Forms**: a comment is taken through its first closing, or all that is left is. -/
theorem taken_eq (form : Form) (s : Bytes) :
    (∃ body tail, IsThroughFirst form.closing body tail s ∧
      form.taken s = (.comment, body ++ form.closing)) ∨
    ¬form.closing <:+: s ∧ form.taken s = (form.unclosedKind, s) := by
  -- Both forms that go to the end of the line are taken alike.
  have hline : (∃ body tail, IsThroughFirst [newline] body tail s ∧
        (TokenKind.comment, line s) = (.comment, body ++ [newline])) ∨
      ¬[newline] <:+: s ∧ (TokenKind.comment, line s) = (.comment, s) := by
    rcases line_eq s with ⟨body, tail, hfirst, hline⟩ | ⟨hnone, hline⟩
    · exact .inl ⟨body, tail, hfirst, congrArg (TokenKind.comment, ·) hline⟩
    · exact .inr ⟨hnone, congrArg (TokenKind.comment, ·) hline⟩
  cases form with
  | slashes => exact hline
  | dashes => exact hline
  | block =>
    rcases block_eq s with ⟨body, tail, hfirst, hblock⟩ | ⟨hnone, hblock⟩
    · refine .inl ⟨body, tail, hfirst, ?_⟩
      rw [taken, hblock]
      rfl
    · refine .inr ⟨hnone, ?_⟩
      rw [taken, hblock]
      rfl

/-- The opening of a comment says how it is read. -/
theorem read_opening (form : Form) (s : Bytes) :
    ∃ b more, form.opening ++ s = b :: more ∧ Byte.isBlank b = false ∧
      Lexeme.read b more = .verbatim (form.taken s).1 (form.opening ++ (form.taken s).2) := by
  cases form with
  | slashes => exact ⟨_, _, rfl, rfl, rfl⟩
  | dashes => exact ⟨_, _, rfl, rfl, rfl⟩
  | block => exact ⟨_, _, rfl, rfl, rfl⟩

end Form

end Comment

/-! ## Scanning -/

/-- **Comments**: behind the opening of a comment the lexer takes everything through the
    first closing or, if there is none, everything that is left.  The text is all that it
    took. -/
theorem Lexer.scan_comment {lx : Lexer} (form : Comment.Form) {blanks s : Bytes}
    (h : lx.StandsBefore blanks (form.opening ++ s)) :
    (∃ body tail, IsThroughFirst form.closing body tail s ∧
      lx.Takes blanks (form.opening ++ (body ++ form.closing)) tail .comment
        (form.opening ++ (body ++ form.closing))) ∨
    ¬form.closing <:+: s ∧
      lx.Takes blanks (form.opening ++ s) [] form.unclosedKind (form.opening ++ s) := by
  obtain ⟨b, more, hopening, hb, hread⟩ := form.read_opening s
  rw [hopening] at h
  rcases form.taken_eq s with ⟨body, tail, hfirst, htaken⟩ | ⟨hnone, htaken⟩
  · rw [htaken] at hread
    refine .inl ⟨body, tail, hfirst, h.takes hb hread ?_⟩
    rw [← hopening, hfirst.split, List.append_assoc, List.append_assoc]
  · rw [htaken] at hread
    refine .inr ⟨hnone, h.takes hb hread ?_⟩
    rw [← hopening, List.append_nil]

/-- Stars, quotes, a placeholder and openings of comments stand before the first `*/`. -/
theorem Lexer.scan_comment_stars :
    (start (ofString "\n/*/ ' ? -- /***/*/")).StandsBefore [newline]
      (Comment.Form.block.opening ++ ofString "/ ' ? -- /***/*/") ∧
    (start (ofString "\n/*/ ' ? -- /***/*/")).Takes [newline]
      (ofString "/*/ ' ? -- /***/") (ofString "*/") .comment (ofString "/*/ ' ? -- /***/") := by
  have h : (start (ofString "\n/*/ ' ? -- /***/*/")).StandsBefore [newline]
      (Comment.Form.block.opening ++ ofString "/ ' ? -- /***/*/") :=
    standsBefore_start (List.forall_mem_singleton.2 rfl) _
  have hfirst : IsThroughFirst Comment.Form.block.closing (ofString "/ ' ? -- /**")
      (ofString "*/") (ofString "/ ' ? -- /***/*/") := by
    exact ⟨by decide +kernel, by decide +kernel⟩
  refine ⟨h, ?_⟩
  rcases scan_comment .block h with ⟨body, tail, hfirst', htakes⟩ | ⟨hnone, -⟩
  · obtain ⟨rfl, rfl⟩ := hfirst.unique hfirst'
    exact htakes
  · exact absurd ⟨_, _, (List.append_assoc ..).trans hfirst.split.symm⟩ hnone

end SqlTokens
