/-! # Between the values of a document

    Blanks, comments and line ends, and the characters that text may hold. -/

namespace SqlTokens.Toml

/-- What reads a value at the head of a text: the value and what is left, or
    nothing if the text is ill-formed there. -/
abbrev Reader (α : Type) : Type := List Char → Option (α × List Char)

/-- A space or a tab. -/
def isSpace (c : Char) : Bool :=
  c == ' ' || c == '\t'

/-- A character that may stand in a comment or, unless it has a meaning there, in
    a string: no control character but the tab. -/
def isTextChar (c : Char) : Bool :=
  c == '\t' || (' ' ≤ c && c != '\x7f')

/-- The text without the blanks at its head. -/
def skipSpaces (s : List Char) : List Char :=
  s.dropWhile isSpace

/-- The text without its line end, if it starts with one. -/
def newline? : List Char → Option (List Char)
  | '\n' :: rest => some rest
  | '\r' :: '\n' :: rest => some rest
  | _ => none

/-- The text without the blanks, comments and line ends at its head, of which the
    first may be the rest of a comment. -/
def skipLines (isComment : Bool) : List Char → Option (List Char)
  | [] => some []
  | c :: rest =>
    if c == '\n' || (c == '\r' && rest.head? == some '\n') then skipLines false rest
    else if isComment then if isTextChar c then skipLines true rest else none
    else if isSpace c then skipLines false rest
    else if c == '#' then skipLines true rest
    else some (c :: rest)

/-- The text after the end of the line, before which a comment may stand. -/
def endLine? (s : List Char) : Option (List Char) :=
  let s := skipSpaces s
  let s := if s.head? == some '#' then s.dropWhile isTextChar else s
  if s.isEmpty then some [] else newline? s

end SqlTokens.Toml
