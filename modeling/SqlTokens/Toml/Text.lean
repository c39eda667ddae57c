import SqlTokens.Text.Hex
import SqlTokens.Toml.Trivia

/-! # Text between quotes

    There are four notations.  Between double quotes a backslash escapes, between
    single quotes nothing does; between three quotes of either kind the text may
    go over several lines, and a line end right after the opening is not part of
    it.  In the first notation over several lines, a backslash at the end of a
    line leaves out all blanks up to the next text. -/

namespace SqlTokens.Toml

open Text (hexValue?)

/-! ## Escapes -/

/-- What the character after a backslash means. -/
inductive Escape where
  /-- This character. -/
  | char (c : Char)
  /-- The character whose code follows in so many digits. -/
  | code (digits : Nat)

/-- The meaning of the character after a backslash, if it has one. -/
def Escape.of? : Char → Option Escape
  | 'b' => some (.char '\x08')
  | 't' => some (.char '\t')
  | 'n' => some (.char '\n')
  | 'f' => some (.char '\x0c')
  | 'r' => some (.char '\r')
  | 'e' => some (.char '\x1b')
  | '"' => some (.char '"')
  | '\\' => some (.char '\\')
  | 'x' => some (.code 2)
  | 'u' => some (.code 4)
  | 'U' => some (.code 8)
  | _ => none

/-- The character with this code, if it is one. -/
def charOf? (code : Nat) : Option Char :=
  if code.isValidChar then some (Char.ofNat code) else none

/-! ## Double quotes -/

/-- Where the reader of a text between double quotes stands. -/
inductive Mode where
  /-- In the text; `isFolding` leaves out blanks. -/
  | text (isFolding : Bool)
  /-- After a backslash. -/
  | escape
  /-- In the code of a character, with so many digits to come. -/
  | code (digits value : Nat)

/-- The text of a notation over several lines whose closing quotes were met, after
    the text `read` in reverse: up to two more quotes belong to the text. -/
def closeLines (quote : Char) (read rest : List Char) : List Char × List Char :=
  let extra := min 2 (rest.takeWhile (· == quote)).length
  (read.reverse ++ List.replicate extra quote, rest.drop extra)

/-- The text up to the closing double quotes, after the text `read` in reverse. -/
def escapedOnto (overLines : Bool) (mode : Mode) (read : List Char) : Reader (List Char)
  | [] => none
  | c :: rest =>
    let startsLine := c == '\n' || (c == '\r' && rest.head? == some '\n')
    match mode with
    | .text isFolding =>
      if isFolding && (isSpace c || startsLine) then escapedOnto overLines mode read rest
      else if c == '"' then
        if !overLines then some (read.reverse, rest)
        else match rest with
          | '"' :: '"' :: after => some (closeLines '"' read after)
          | _ => escapedOnto overLines (.text false) (c :: read) rest
      else if c == '\\' then escapedOnto overLines .escape read rest
      else if isTextChar c || (overLines && startsLine) then
        escapedOnto overLines (.text false) (c :: read) rest
      else none
    | .escape =>
      match Escape.of? c with
      | some (.char d) => escapedOnto overLines (.text false) (d :: read) rest
      | some (.code digits) => escapedOnto overLines (.code digits 0) read rest
      | none =>
        if overLines && (newline? (skipSpaces (c :: rest))).isSome then
          escapedOnto overLines (.text true) read rest
        else none
    | .code digits value =>
      match hexValue? c with
      | none => none
      | some d =>
        let value := value * 16 + d
        if digits == 1 then
          match charOf? value with
          | none => none
          | some d => escapedOnto overLines (.text false) (d :: read) rest
        else escapedOnto overLines (.code (digits - 1) value) read rest

/-! ## Single quotes -/

/-- The text up to the next three single quotes, after the text `read` in reverse. -/
def plainLinesOnto (read : List Char) : Reader (List Char)
  | [] => none
  | c :: rest =>
    if c == '\x27' then
      match rest with
      | '\x27' :: '\x27' :: after => some (closeLines '\x27' read after)
      | _ => plainLinesOnto (c :: read) rest
    else if isTextChar c || c == '\n' || (c == '\r' && rest.head? == some '\n') then
      plainLinesOnto (c :: read) rest
    else none

/-- The text up to the next single quote. -/
def plain : Reader (List Char) := fun s =>
  let text := s.takeWhile fun c => isTextChar c && c != '\x27'
  match s.drop text.length with
  | '\x27' :: rest => some (text, rest)
  | _ => none

/-! ## Any notation -/

/-- The text without a line end at its head. -/
def skipFirstNewline (s : List Char) : List Char :=
  (newline? s).getD s

/-- A text on one line, with its quotes. -/
def lineText : Reader (List Char)
  | '"' :: rest => escapedOnto false (.text false) [] rest
  | '\x27' :: rest => plain rest
  | _ => none

/-- A text in any of the notations, with its quotes. -/
def quotedText : Reader (List Char)
  | '"' :: '"' :: '"' :: rest => escapedOnto true (.text false) [] (skipFirstNewline rest)
  | '\x27' :: '\x27' :: '\x27' :: rest => plainLinesOnto [] (skipFirstNewline rest)
  | s => lineText s

end SqlTokens.Toml
