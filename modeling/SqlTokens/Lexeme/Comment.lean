import SqlTokens.Lexeme.Basic
import SqlTokens.Lexeme.Span

/-! # Comments

    A comment to the end of the line has the newline in it, if there is one.  A
    block comment ends with the first `*/` after its opening; where there is
    none, the rest of the input is malformed.  Nothing between the two ends
    means anything. -/

namespace SqlTokens

namespace Comment

/-- The rest of the line, with its newline. -/
def line : Span := fun s =>
  let before := s.takeWhile (· != Byte.newline)
  before ++ (s.drop before.length).take 1

/-- The input up to its first `*/` and whether there is one, after the bytes of
    `read`, which are in reverse. -/
def blockOnto (read : Bytes) : Bytes → Bytes × Bool
  | [] => (read.reverse, false)
  | [b] => ((b :: read).reverse, false)
  | b :: c :: rest =>
    if b == Byte.star && c == Byte.slash then ((c :: b :: read).reverse, true)
    else blockOnto (b :: read) (c :: rest)

/-- The input up to its first `*/`, and whether there is one. -/
def block (s : Bytes) : Bytes × Bool :=
  blockOnto [] s

end Comment

namespace Lexeme

/-- The comment to the end of the line that `opening` starts. -/
def lineComment (opening : Bytes) (s : Bytes) : Lexeme :=
  verbatim .comment (opening ++ Comment.line s)

/-- The comment that `/*` starts. -/
def blockComment (s : Bytes) : Lexeme :=
  let (body, isClosed) := Comment.block s
  verbatim (if isClosed then .comment else .malformed) (Byte.slash :: Byte.star :: body)

end Lexeme

end SqlTokens
