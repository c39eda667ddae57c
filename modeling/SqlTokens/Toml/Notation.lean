import SqlTokens.Text.Hex

/-! # Notations of a text

    A text is written in the plainest notation that can hold it, tried in this
    order: between double quotes with nothing to escape, between single quotes,
    over several lines between three double quotes with nothing to escape, over
    several lines between three single quotes.  If none can, escapes are written,
    over several lines exactly if the text has a line end.

    A notation over several lines may hold a text on one line; only a text with a
    line end starts on a line of its own, which reading leaves out again. -/

namespace SqlTokens.Toml

open Text (hexDigit)

/-- A way to write a text. -/
inductive Notation where
  /-- Between double quotes. -/
  | escaped
  /-- Between single quotes. -/
  | plain
  /-- Between three double quotes. -/
  | escapedLines
  /-- Between three single quotes. -/
  | plainLines
  deriving DecidableEq

/-- The length of the longest run of `c` in a text whose head continues a run of
    length `run`. -/
def longestRunFrom (c : Char) (run : Nat) : List Char → Nat
  | [] => run
  | d :: rest =>
    if d == c then longestRunFrom c (run + 1) rest else max run (longestRunFrom c 0 rest)

/-- The length of the longest run of `c`. -/
def longestRun (c : Char) (text : List Char) : Nat :=
  longestRunFrom c 0 text

/-- A character that can only be written by an escape: a control character other
    than tab and line end. -/
def needsEscape (c : Char) : Bool :=
  (c < ' ' || c == '\x7f') && c != '\t' && c != '\n'

/-- The notation in which a text is written. -/
def Notation.of (text : List Char) : Notation :=
  let isFree := !text.any needsEscape
  let hasLines := text.contains '\n'
  let isVerbatim := isFree && !text.contains '\\'
  if isVerbatim && longestRun '"' text == 0 && !hasLines then .escaped
  else if isFree && longestRun '\x27' text == 0 && !hasLines then .plain
  else if isVerbatim && longestRun '"' text ≤ 2 then .escapedLines
  else if isFree && longestRun '\x27' text ≤ 2 then .plainLines
  else if hasLines then .escapedLines
  else .escaped

/-- A character where it must be escaped if it can, other than a quote or a line
    end. -/
def writeChar (c : Char) : List Char :=
  match c with
  | '\x08' => ['\\', 'b']
  | '\t' => ['\\', 't']
  | '\x0c' => ['\\', 'f']
  | '\r' => ['\\', 'r']
  | '\\' => ['\\', '\\']
  | c =>
    if needsEscape c then
      ['\\', 'u', '0', '0', hexDigit .upper (c.toNat / 16), hexDigit .upper (c.toNat % 16)]
    else [c]

/-- A text on one line between double quotes, without them. -/
def writeEscaped (text : List Char) : List Char :=
  text.flatMap fun c =>
    if c == '"' then ['\\', '"'] else if c == '\n' then ['\\', 'n'] else writeChar c

/-- A text over several lines between three double quotes, without them: `run` double
    quotes were just written, and a third one in a row is escaped. -/
def writeEscapedLinesFrom (run : Nat) : List Char → List Char
  | [] => []
  | c :: rest =>
    if c == '"' then
      if run == 2 then '\\' :: '"' :: writeEscapedLinesFrom 0 rest
      else '"' :: writeEscapedLinesFrom (run + 1) rest
    else if c == '\n' then '\n' :: writeEscapedLinesFrom 0 rest
    else writeChar c ++ writeEscapedLinesFrom 0 rest

/-- What stands between the opening of a notation over several lines and the text. -/
def lineStart (text : List Char) : List Char :=
  if text.contains '\n' then ['\n'] else []

/-- A text in its notation. -/
def writeText (text : List Char) : List Char :=
  match Notation.of text with
  | .escaped => ['"'] ++ writeEscaped text ++ ['"']
  | .plain => ['\x27'] ++ text ++ ['\x27']
  | .escapedLines =>
    ['"', '"', '"'] ++ lineStart text ++ writeEscapedLinesFrom 0 text ++ ['"', '"', '"']
  | .plainLines =>
    ['\x27', '\x27', '\x27'] ++ lineStart text ++ text ++ ['\x27', '\x27', '\x27']

end SqlTokens.Toml
