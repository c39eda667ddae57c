import SqlTokens.Toml.Moment
import SqlTokens.Toml.Node

/-! # Values without quotes

    Truth values, points in time and numbers.  Such a value goes up to the next
    blank or mark; only the blank between a date and a time belongs to it. -/

namespace SqlTokens.Toml.Scalar

/-- A character that ends a value without quotes: a blank, the end of a line, or
    a mark of the document. -/
def isEnd (c : Char) : Bool :=
  isSpace c || c == '\n' || c == '\r' || c == '#' || c == '=' || c == ',' ||
    c == '[' || c == ']' || c == '\x7b' || c == '\x7d'

/-- The text up to the next character that ends a value. -/
def word (s : List Char) : List Char :=
  s.takeWhile (!isEnd ·)

/-- The text of the value at the head: a space may stand between date and time. -/
def text (s : List Char) : List Char :=
  let first := word s
  match s.drop first.length with
  | ' ' :: d :: rest =>
    if Moment.afterDate? first == some [] && d.isDigit then first ++ ' ' :: word (d :: rest)
    else first
  | _ => first

/-- The value that a text without quotes writes. -/
def node? (s : List Char) : Option Node :=
  if s == ['t', 'r', 'u', 'e'] then some (.boolean true)
  else if s == ['f', 'a', 'l', 's', 'e'] then some (.boolean false)
  else if Moment.hasForm s then some .moment
  else (Number.of? s).map .number

/-- The value without quotes at the head. -/
def read : Reader Node := fun s =>
  let t := text s
  (node? t).map fun node => (node, s.drop t.length)

end SqlTokens.Toml.Scalar
