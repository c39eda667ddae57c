import SqlTokens.Scanner

/-! # Lexers

    A lexer serves one statement.  It adds to a scanner what a consumer may
    switch and what an error message needs:

    * **Comments** are handed out or passed over, as the consumer wishes.
    * **Truncation** ends the statement where the lexer stands, for good.
    * **The last text** is that of the last token that `next` handed out; `scan`
      leaves no such trace.

    A course is a row of tokens, each with the lexer after it.  The outcome of
    every longer operation can be read off one. -/

namespace SqlTokens

/-- A lexer in the middle of its statement. -/
structure Lexer where
  scanner : Scanner
  /-- Whether comments are handed out. -/
  showsComments : Bool
  /-- Whether the statement was ended where the lexer stands. -/
  isTruncated : Bool
  /-- The text of the last token, if it had one. -/
  lastText : Option Bytes
  /-- The last error message. -/
  lastDiagnosis : Option String
  deriving DecidableEq

namespace Lexer

/-- A lexer before the first byte of a statement, which passes over comments. -/
def start (input : Bytes) : Lexer :=
  { scanner := .start input
    showsComments := false
    isTruncated := false
    lastText := none
    lastDiagnosis := none }

/-- The lexer with comments shown or hidden from here on. -/
def showComments (lx : Lexer) (shown : Bool) : Lexer :=
  { lx with showsComments := shown }

/-- The lexer with its statement ended here. -/
def truncate (lx : Lexer) : Lexer :=
  { lx with isTruncated := true }

/-- The position of the byte that is read next. -/
def position (lx : Lexer) : Nat :=
  lx.scanner.position

/-- How many placeholders without a name were passed. -/
def ordinals (lx : Lexer) : Nat :=
  lx.scanner.ordinals

/-- How many bytes are still to be read. -/
def remaining (lx : Lexer) : Nat :=
  lx.scanner.remaining

/-! ## Single tokens -/

/-- The next token, comments among them. -/
def scan (lx : Lexer) : Token × Lexer :=
  if lx.isTruncated then (⟨.endOfInput, none, lx.position⟩, lx)
  else
    let (token, scanner) := lx.scanner.next
    (token, { lx with scanner })

theorem remaining_scan_lt (lx : Lexer) (h : lx.scan.1.kind ≠ .endOfInput) :
    lx.scan.2.remaining < lx.remaining := by
  unfold scan at h ⊢
  split
  · next ht => simp [ht] at h
  · next ht => exact Scanner.remaining_next_lt (by simpa [ht] using h)

/-- The next token that is shown, remembered as the last one. -/
def next (lx : Lexer) : Token × Lexer :=
  match _h : lx.scan with
  | (token, after) =>
    if _hc : token.kind = .comment ∧ !lx.showsComments then after.next
    else (token, { after with lastText := token.value })
termination_by lx.remaining
decreasing_by
  have := remaining_scan_lt lx
  simp_all

theorem remaining_next_lt (lx : Lexer) (h : lx.next.1.kind ≠ .endOfInput) :
    lx.next.2.remaining < lx.remaining := by
  fun_induction next lx with
  | case1 lx token after hs hc ih =>
    have := remaining_scan_lt lx
    simp only [hs, hc.1] at this
    exact Nat.lt_trans (ih h) (this (by simp))
  | case2 lx token after hs hc =>
    have := remaining_scan_lt lx
    rw [hs] at this
    exact this h

/-- Which tokens are pulled. -/
inductive View where
  /-- All of them, by `scan`. -/
  | everything
  /-- Those that are shown, by `next`. -/
  | shown
  deriving DecidableEq

/-- The next token of a view. -/
def pull (lx : Lexer) : View → Token × Lexer
  | .everything => lx.scan
  | .shown => lx.next

/-- Each pull but that of the end of the input takes at least one byte. -/
theorem remaining_pull_lt (lx : Lexer) (view : View) (h : (lx.pull view).1.kind ≠ .endOfInput) :
    (lx.pull view).2.remaining < lx.remaining := by
  cases view with
  | everything => exact remaining_scan_lt lx h
  | shown => exact remaining_next_lt lx h

/-! ## Courses -/

/-- A token, and the lexer that handed it out. -/
abbrev Pull : Type := Token × Lexer

/-- A row of pulls, which is never empty. -/
structure Course where
  /-- The pulls before the last. -/
  before : List Pull
  last : Pull

namespace Course

/-- All pulls of a course. -/
def pulls (c : Course) : List Pull :=
  c.before ++ [c.last]

/-- The tokens of a course. -/
def tokens (c : Course) : List Token :=
  c.pulls.map Prod.fst

end Course

/-- The course of a lexer after the pulls of `before`, which are in reverse. -/
def courseOnto (view : View) (stops : Token → Bool) (before : List Pull) (lx : Lexer) : Course :=
  match _h : lx.pull view with
  | (token, after) =>
    if _he : token.kind = .endOfInput ∨ stops token then ⟨before.reverse, token, after⟩
    else courseOnto view stops ((token, after) :: before) after
termination_by lx.remaining
decreasing_by
  have := remaining_pull_lt lx view
  simp_all

/-- The pulls of a view up to the first at which the consumer stops, or else through
    the end of the input. -/
def course (lx : Lexer) (view : View) (stops : Token → Bool) : Course :=
  courseOnto view stops [] lx

/-- The pulls of a view through the end of the input, malformed tokens among them. -/
def wholeCourse (lx : Lexer) (view : View) : Course :=
  lx.course view fun _ => false

end Lexer

end SqlTokens
