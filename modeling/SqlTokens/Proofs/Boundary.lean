import SqlTokens.Proofs.Stream

/-! # One scan

    A lexer that may still scan goes on with some blanks and, behind them, with what its
    next token is read from.  A scan passes the blanks and takes the source of one token;
    what it hands out, and where it leaves the lexer, only depends on the lexeme there
    (`Lexer.StandsBefore.takes`).

    So a rule is described by what it takes of the rest of the input, wherever in a
    statement that is. -/

namespace SqlTokens

namespace Lexer

/-- What is left of the statement is `blanks` and then `s`, and it may be scanned. -/
structure StandsBefore (lx : Lexer) (blanks s : Bytes) : Prop where
  isTruncated : lx.isTruncated = false
  isBlank : IsBlank blanks
  rest : lx.scanner.cursor.rest = blanks ++ s

/-- The next scan passes `blanks` and takes `source`, with `tail` left behind it: it hands
    out a token that starts with the source and carries `value`.  The lexer moves by the
    bytes that it took, counts no placeholder, and is otherwise as it was. -/
structure Takes (lx : Lexer) (blanks source tail : Bytes) (kind : TokenKind) (value : Bytes) :
    Prop where
  rest : lx.scanner.cursor.rest = blanks ++ (source ++ tail)
  scan : lx.scan = (⟨kind, some value, lx.position + blanks.length⟩,
    { lx with
      scanner := ⟨⟨tail, lx.position + blanks.length + source.length⟩, lx.ordinals⟩ })

/-- A fresh lexer stands before the first byte, if that is no blank. -/
theorem standsBefore_start {blanks : Bytes} (h : IsBlank blanks) (s : Bytes) :
    (start (blanks ++ s)).StandsBefore blanks s :=
  ⟨rfl, h, rfl⟩

/-- **One scan**: the lexeme behind the blanks is what is taken. -/
theorem StandsBefore.takes {lx : Lexer} {blanks tail source value : Bytes} {b : UInt8}
    {s : Bytes} {kind : TokenKind} (h : lx.StandsBefore blanks (b :: s))
    (hb : Byte.isBlank b = false) (hread : Lexeme.read b s = ⟨kind, source, .text value⟩)
    (hsource : b :: s = source ++ tail) : lx.Takes blanks source tail kind value := by
  obtain ⟨⟨⟨rest, p⟩, n⟩, shows, truncated, text, diagnosis⟩ := lx
  obtain ⟨ht, hblanks, hrest⟩ := h
  simp only at ht hrest
  subst ht hrest
  refine ⟨congrArg (blanks ++ ·) hsource, ?_⟩
  obtain ⟨more, tail', rfl, hmore⟩ := Lexeme.exists_tail b s
  -- What is read and what is left of it are the same two parts.
  have hparts : b :: more = source := by rw [← hmore, hread]
  subst hparts
  obtain rfl : tail' = tail := List.append_cancel_left (List.cons.inj hsource).2
  simp only [Lexer.scan, Scanner.next_lexeme hblanks hb hmore, hread]
  rfl

end Lexer

end SqlTokens
