import SqlTokens.Lexeme.Basic
import SqlTokens.Lexeme.Span

/-! # Words and named placeholders

    A word is the longest run of letters and digits after its first letter.
    Its lower-case form decides whether it is reserved; a reserved word carries
    that form, an identifier the spelling of the input.

    A named placeholder is a colon and the longest run of letters, digits and
    dots after it.  A colon alone is malformed. -/

namespace SqlTokens.Lexeme

/-- The word at the head of `s`, whose first byte is a letter. -/
def word (s : Bytes) : Lexeme :=
  let source := Span.run Byte.isWordByte s
  let lowered := source.map Byte.toLower
  match Keyword.ofSpelling? lowered with
  | some k => ⟨.keyword k, source, .text lowered⟩
  | none => verbatim .identifier source

/-- The placeholder whose name is at the head of `s`, after its colon. -/
def named (s : Bytes) : Lexeme :=
  match Span.run Byte.isNameByte s with
  | [] => verbatim .malformed [Byte.colon]
  | name => verbatim .placeholder (Byte.colon :: name)

end SqlTokens.Lexeme
