import SqlTokens.Lexer.Session
import SqlTokens.Proofs.Stepwise.Rules
import SqlTokens.Proofs.Stream

/-! # Sessions, byte by byte

    The operations of a lexer, carried out by steps of a reader that may each be
    refused.  A refusal would end the session it happens in, and be its result.
    There is none: `session_eq` — a session byte by byte is the session of the
    lexer, whatever the lexer has behind it and whatever it is asked to do. -/

namespace SqlTokens.Stepwise

open Lexer (Command Course Outcome Pull)

/-! ## Single tokens -/

/-- Passes the blanks that come next. -/
def skipBlanks (r : Reader) : Except EndOfInput Reader :=
  if r.peek?.any Byte.isBlank then
    match _h : r.pass with
    | .error e => .error e
    | .ok next => skipBlanks next
  else .ok r
termination_by r.rest.length
decreasing_by exact Reader.length_rest_pass _h

/-- The next token of a scanner. -/
def nextToken (s : Scanner) : Except EndOfInput (Token × Scanner) := do
  let r ← skipBlanks ⟨s.cursor, []⟩
  match r.peek? with
  | none => return (⟨.endOfInput, none, r.cursor.position⟩, ⟨r.cursor, s.ordinals⟩)
  | some b =>
    let found ← read b r
    let ordinals := found.content.count s.ordinals
    return (⟨found.kind, found.content.value? ordinals, r.cursor.position⟩,
      ⟨found.cursor, ordinals⟩)

/-- The next token of a lexer, comments among them. -/
def scan (lx : Lexer) : Except EndOfInput (Token × Lexer) :=
  if lx.isTruncated then .ok (⟨.endOfInput, none, lx.position⟩, lx)
  else do
    let (token, scanner) ← nextToken lx.scanner
    return (token, { lx with scanner })

theorem skipBlanks_eq (c : Cursor) (buffer : Bytes) :
    skipBlanks ⟨c, buffer⟩ = .ok ⟨c.skipWhile Byte.isBlank, buffer⟩ := by
  obtain ⟨s, p⟩ := c
  induction s generalizing p with
  | nil =>
    rw [skipBlanks]
    rfl
  | cons b s ih =>
    rw [skipBlanks]
    cases hb : Byte.isBlank b with
    | false =>
      simp [hb, Cursor.skipWhile, Cursor.skip]
    | true =>
      rw [if_pos (by simp [hb])]
      split
      · next e he => cases he
      · next next hnext =>
        cases hnext
        rw [ih]
        simp [hb, Cursor.skipWhile, Cursor.skip, Cursor.advance]

theorem nextToken_eq (s : Scanner) : nextToken s = .ok s.next := by
  show (_ >>= _) = _
  rw [skipBlanks_eq, ok_bind, Scanner.next]
  obtain ⟨rest, p⟩ := s.cursor.skipWhile Byte.isBlank
  cases rest with
  | nil => rfl
  | cons b rest =>
    -- The scanner measures the lexeme and then passes it; the reader stands there already.
    have hle := (Lexeme.read_source_isPrefix b rest).length_le
    have hskip : Cursor.skip (Lexeme.read b rest).source.length ⟨b :: rest, p⟩ =
        (Finding.ofLexeme (Lexeme.read b rest) ⟨b :: rest, p⟩).cursor := by
      have hrest := Cursor.rest_skip (Lexeme.read b rest).source.length ⟨b :: rest, p⟩
      have hposition := Cursor.position_skip (c := ⟨b :: rest, p⟩) hle
      cases hc : Cursor.skip (Lexeme.read b rest).source.length ⟨b :: rest, p⟩
      rw [hc] at hrest hposition
      cases hrest
      cases hposition
      rfl
    show (read b ⟨⟨b :: rest, p⟩, []⟩ >>= _) = _
    rw [read_eq, ok_bind]
    dsimp only
    rw [hskip]
    rfl

theorem scan_eq (lx : Lexer) : scan lx = .ok lx.scan := by
  unfold scan Lexer.scan
  split
  · rfl
  · rw [nextToken_eq]
    rfl

/-- The next token that is shown, remembered as the last one. -/
def next (lx : Lexer) : Except EndOfInput (Token × Lexer) :=
  match _h : scan lx with
  | .error e => .error e
  | .ok (token, after) =>
    if token.kind = .comment ∧ !lx.showsComments then next after
    else .ok (token, { after with lastText := token.value })
termination_by lx.remaining
decreasing_by
  have hscan := (scan_eq lx).symm.trans _h
  have hlt := lx.remaining_scan_lt
  simp_all

/-- A round of passing over comments, without the evidence that it ends. -/
theorem next_round (lx : Lexer) :
    next lx = scan lx >>= fun pull =>
      if pull.1.kind = .comment ∧ !lx.showsComments then next pull.2
      else .ok (pull.1, { pull.2 with lastText := pull.1.value }) := by
  rw [next]
  split
  · next e he =>
    rw [he]
    rfl
  · next token after hscan =>
    rw [hscan]
    rfl

theorem next_eq (lx : Lexer) : next lx = .ok lx.next := by
  rw [next_round, scan_eq, ok_bind]
  -- By induction on the comments that are passed over.
  fun_induction Lexer.next lx with
  | case1 lx token after hs hc ih =>
    rw [hs, if_pos hc, next_round, scan_eq, ok_bind]
    exact ih
  | case2 lx token after hs hc => rw [hs, if_neg hc]

section
variable {lx after : Lexer} {token : Token} (h : next lx = .ok (token, after))
include h

/-- What comes next byte by byte is what the lexer hands out. -/
theorem pull_of_next : lx.pull .shown = (token, after) :=
  Except.ok.inj ((next_eq lx).symm.trans h)

/-- Loops over tokens end. -/
theorem remaining_lt_of_next (hend : token.kind ≠ .endOfInput) :
    after.remaining < lx.remaining := by
  have hlt := lx.remaining_pull_lt .shown
  rw [pull_of_next h] at hlt
  exact hlt hend

end

/-! ## Statements and sessions -/

/-- Reads a statement to its end or to its first malformed token; the pulls so far
    are in reverse. -/
def readStatementOnto (before : List Pull) (lx : Lexer) : Except EndOfInput Course :=
  match _h : next lx with
  | .error e => .error e
  | .ok (token, after) =>
    if token.kind = .endOfInput ∨ token.isMalformed then .ok ⟨before.reverse, token, after⟩
    else readStatementOnto ((token, after) :: before) after
termination_by lx.remaining
decreasing_by exact remaining_lt_of_next _h (by simp_all)

/-- Carries out one command. -/
def perform (lx : Lexer) : Command → Except EndOfInput Outcome
  | .next => do
    let (token, after) ← next lx
    return ⟨.token token, after, [.token token]⟩
  | .scan => do
    let (token, after) ← scan lx
    return ⟨.token token, after, []⟩
  | .tokenize => do
    let course ← readStatementOnto [] lx
    return ⟨.statement course.result, course.lexer, course.log⟩
  | .truncate => .ok (lx.perform .truncate)
  | .comments shown => .ok (lx.perform (.comments shown))
  | .report message => .ok (lx.perform (.report message))

/-- Carries out commands in order. -/
def session (lx : Lexer) : List Command → Except EndOfInput (List Outcome)
  | [] => .ok []
  | command :: more => do
    let outcome ← perform lx command
    return outcome :: (← session outcome.lexer more)

theorem readStatementOnto_eq (before : List Pull) (lx : Lexer) :
    readStatementOnto before lx = .ok (Lexer.courseOnto .shown Token.isMalformed before lx) := by
  fun_induction readStatementOnto before lx with
  | case1 before lx e he => cases he.symm.trans (next_eq lx)
  | case2 before lx token after hnext hends =>
    rw [Lexer.courseOnto_of_pull (pull_of_next hnext), if_pos hends]
  | case3 before lx token after hnext hends ih =>
    rw [Lexer.courseOnto_of_pull (pull_of_next hnext), if_neg hends, ih]

theorem perform_eq (lx : Lexer) (command : Command) :
    perform lx command = .ok (lx.perform command) := by
  cases command with
  | next =>
    show (_ >>= _) = _
    rw [next_eq]
    rfl
  | scan =>
    show (_ >>= _) = _
    rw [scan_eq]
    rfl
  | tokenize =>
    show (_ >>= _) = _
    rw [readStatementOnto_eq]
    rfl
  | truncate => rfl
  | comments shown => rfl
  | report message => rfl

/-- **No refusal**: byte by byte, a session is the session of the lexer. -/
theorem session_eq (lx : Lexer) (commands : List Command) :
    session lx commands = .ok (lx.session commands) := by
  induction commands generalizing lx with
  | nil => rfl
  | cons command more ih =>
    show (_ >>= _) = _
    rw [perform_eq, ok_bind, ih]
    rfl

end SqlTokens.Stepwise
