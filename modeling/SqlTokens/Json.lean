import SqlTokens.Text.Hex

/-! # JSON documents

    Values, and their text over several lines: two blanks for each level, a space
    after the colon of a field, and nothing between the brackets of an empty array
    or object.  In a string only quotes, backslashes and control characters below
    U+0020 are escaped. -/

namespace SqlTokens

open Text (hexDigit)

/-- A JSON value whose numbers are natural. -/
inductive Json where
  | null
  | number (n : Nat)
  | string (s : String)
  | array (items : List Json)
  | object (fields : List (String × Json))

namespace Json

/-- A character as it is written inside a string. -/
def writeChar (c : Char) : List Char :=
  match c with
  | '"' => ['\\', '"']
  | '\\' => ['\\', '\\']
  | '\x08' => ['\\', 'b']
  | '\t' => ['\\', 't']
  | '\n' => ['\\', 'n']
  | '\x0c' => ['\\', 'f']
  | '\r' => ['\\', 'r']
  | c =>
    if c < ' ' then
      ['\\', 'u', '0', '0', hexDigit .lower (c.toNat / 16), hexDigit .lower (c.toNat % 16)]
    else [c]

/-- A string with its quotes. -/
def writeString (s : String) : List Char :=
  '"' :: s.toList.flatMap writeChar ++ ['"']

/-- The start of a line at some level. -/
def newline (level : Nat) : List Char :=
  '\n' :: List.replicate (2 * level) ' '

/-- Parts between brackets, each on a line of its own. -/
def enclose (level : Nat) (left right : Char) : List (List Char) → List Char
  | [] => [left, right]
  | first :: more =>
    let inside := newline (level + 1)
    left :: inside ++ first ++ more.flatMap (fun part => ',' :: inside ++ part)
      ++ newline level ++ [right]

/-- The text of a value that starts on a line of some level. -/
def writeAt (level : Nat) : Json → List Char
  | .null => ['n', 'u', 'l', 'l']
  | .number n => Nat.toDigits 10 n
  | .string s => writeString s
  | .array items =>
    enclose level '[' ']' (items.attach.map fun item => writeAt (level + 1) item.1)
  | .object fields =>
    enclose level '\x7b' '\x7d' (fields.attach.map fun field =>
      writeString field.1.1 ++ [':', ' '] ++ writeAt (level + 1) field.1.2)
termination_by value => sizeOf value
decreasing_by
  · have := List.sizeOf_lt_of_mem item.2
    simp only [Json.array.sizeOf_spec]
    omega
  · have := List.sizeOf_lt_of_mem field.2
    have : sizeOf field.1 = 1 + sizeOf field.1.1 + sizeOf field.1.2 := rfl
    simp only [Json.object.sizeOf_spec]
    omega

/-- The text of a document. -/
def write (value : Json) : String :=
  String.ofList (writeAt 0 value)

end Json

end SqlTokens
