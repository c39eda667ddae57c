import SqlTokens.Toml.Scalar

/-! # Names and values

    A name is bare or quoted on one line, and a path is at most `maxNames` names
    with dots between them.  A value is a text, a scalar, an array or an inline
    table; arrays and inline tables nest at most `maxDepth` deep, and lines may end
    around the brackets, commas and equals signs in them.

    A loop over the elements of a value goes on only where the text got shorter;
    every element does that, so the check never stops it. -/

namespace SqlTokens.Toml

/-! ## Names -/

/-- A character of a name without quotes. -/
def isBareChar (c : Char) : Bool :=
  c.isAlphanum || c == '_' || c == '-'

/-- A name. -/
def name : Reader String := fun s =>
  match lineText s with
  | some (text, rest) => some (String.ofList text, rest)
  | none =>
    match s.takeWhile isBareChar with
    | [] => none
    | text => some (String.ofList text, s.drop text.length)

/-- How many names a path may have. -/
def maxNames : Nat := 80

/-- A path: the names before the last dot, in order after those of `read` in
    reverse, and the last name. -/
def pathOnto (read : List String) (s : List Char) : Option ((List String × String) × List Char) :=
  match name s with
  | none => none
  | some (last, rest) =>
    match skipSpaces rest with
    | '.' :: after =>
      let after := skipSpaces after
      if maxNames ≤ read.length + 1 then none
      else if after.length < s.length then pathOnto (last :: read) after else none
    | rest => some ((read.reverse, last), rest)
termination_by s.length

/-- A path, and what is left after the blanks behind it. -/
def path : Reader (List String × String) :=
  pathOnto []

/-! ## Arrays and inline tables -/

/-- How deep arrays and inline tables may nest. -/
def maxDepth : Nat := 80

/-- The elements of an array up to its closing bracket, in order after those of
    `read` in reverse.  A comma may follow the last. -/
def elementsOnto (element : Reader Node) (read : List Node) (s : List Char) :
    Option (List Node × List Char) :=
  match skipLines false s with
  | none => none
  | some (']' :: rest) => some (read.reverse, rest)
  | some s' =>
    match element s' with
    | none => none
    | some (node, rest) =>
      match skipLines false rest with
      | some (']' :: rest) => some ((node :: read).reverse, rest)
      | some (',' :: rest) =>
        if rest.length < s.length then elementsOnto element (node :: read) rest else none
      | _ => none
termination_by s.length

/-- A value after its path and the equals sign between them, around which `skip`
    passes over what has no meaning. -/
def assignment (skip : List Char → Option (List Char)) (element : Reader Node) :
    Reader ((List String × String) × Node) := fun s => do
  let (target, rest) ← path s
  match ← skip rest with
  | '=' :: rest => do
    let (node, rest) ← element (← skip rest)
    return ((target, node), rest)
  | _ => none

/-- The entries of an inline table up to its closing brace, added to `entries`.  A
    comma may follow the last. -/
def entriesOnto (element : Reader Node) (entries : Entries) (s : List Char) :
    Option (Entries × List Char) :=
  match skipLines false s with
  | none => none
  | some ('\x7d' :: rest) => some (entries, rest)
  | some s' =>
    match assignment (skipLines false) element s' with
    | none => none
    | some (((path, last), node), rest) =>
      match entries.define path last node, skipLines false rest with
      | some entries, some ('\x7d' :: rest) => some (entries, rest)
      | some entries, some (',' :: rest) =>
        if rest.length < s.length then entriesOnto element entries rest else none
      | _, _ => none
termination_by s.length

/-- A value whose arrays and inline tables nest at most `depth` deep. -/
def valueWithin : Nat → Reader Node
  | depth, s =>
    match s with
    | '[' :: rest =>
      match depth with
      | 0 => none
      | depth + 1 =>
        (elementsOnto (valueWithin depth) [] rest).map fun (items, rest) => (.array items, rest)
    | '\x7b' :: rest =>
      match depth with
      | 0 => none
      | depth + 1 =>
        (entriesOnto (valueWithin depth) [] rest).map fun (entries, rest) =>
          (.table .inline entries, rest)
    | _ =>
      if s.head? == some '"' || s.head? == some '\x27' then
        (quotedText s).map fun (text, rest) => (.string (String.ofList text), rest)
      else Scalar.read s

/-- A value. -/
def value : Reader Node :=
  valueWithin maxDepth

end SqlTokens.Toml
