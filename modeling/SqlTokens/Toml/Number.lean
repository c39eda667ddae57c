import SqlTokens.Toml.Text

/-! # Numbers

    A number is read in two steps.  Where it stands in a document, only its form
    is checked; its value is asked for later, and not of every number.  Some then
    turn out to have none:

    * **An integer** without digits, with a digit that its radix does not have, or
      beyond 128 bits.
    * **A floating-point number** that is too large to be finite; one that is
      written as `inf` or `nan` has a value. -/

namespace SqlTokens.Toml

open Text (hexValue?)

/-- A number by its form. -/
inductive Number where
  /-- An integer, by its sign and by its digits without the underscores. -/
  | integer (isNegative : Bool) (radix : Nat) (digits : List Char)
  /-- The floating-point number `m · 10 ^ e` or its opposite. -/
  | decimal (m : Nat) (e : Int)
  /-- An infinity, or no number at all. -/
  | special

namespace Number

/-! ## Values -/

/-- A digit of a radix up to sixteen. -/
def isDigitOf (radix : Nat) (c : Char) : Bool :=
  (hexValue? c).any (· < radix)

/-- The number that digits of a radix write, with underscores left out. -/
def ofDigits (radix : Nat) (s : List Char) : Nat :=
  s.foldl (fun n c => (hexValue? c).elim n fun d => n * radix + d) 0

/-- Whether `m · 10 ^ e` rounds to a finite floating-point number of 64 bits. -/
def isFinite (m : Nat) (e : Int) : Bool :=
  let bound := Nat.pow 2 1024 - Nat.pow 2 970
  let magnitude : Int := (Nat.toDigits 10 m).length + e
  if m = 0 || magnitude < 300 then true
  else if magnitude > 310 then false
  else if e < 0 then m < bound * Nat.pow 10 e.natAbs
  else m * Nat.pow 10 e.natAbs < bound

/-- Whether the number has a value: an integer is below `2 ^ 128`, and if it is
    negative, at least `-2 ^ 127`. -/
def hasValue : Number → Bool
  | .integer isNegative radix digits =>
    !digits.isEmpty && digits.all (isDigitOf radix) &&
      if isNegative then ofDigits radix digits ≤ Nat.pow 2 127
      else ofDigits radix digits < Nat.pow 2 128
  | .decimal m e => isFinite m e
  | .special => true

/-! ## Signs and underscores -/

/-- Whether a text starts with a sign. -/
def isSigned (s : List Char) : Bool :=
  s.head? == some '+' || s.head? == some '-'

def isNegative (s : List Char) : Bool :=
  s.head? == some '-'

/-- What follows a sign, if there is one. -/
def withoutSign (s : List Char) : List Char :=
  if isSigned s then s.tail else s

/-- Whether every underscore stands between two characters of a class; `isAfter`
    says whether the text may start with one. -/
def hasInnerBreaks (p : Char → Bool) (isAfter : Bool) : List Char → Bool
  | [] => true
  | c :: rest =>
    if c == '_' then isAfter && rest.head?.any p && hasInnerBreaks p false rest
    else hasInnerBreaks p (p c) rest

/-- Digits of a class with single underscores between them, or nothing. -/
def isGrouped (p : Char → Bool) (s : List Char) : Bool :=
  s.all (fun c => p c || c == '_') && hasInnerBreaks p false s

/-- A text without its underscores. -/
def withoutBreaks (s : List Char) : List Char :=
  s.filter (· != '_')

/-- Whether a text starts with a zero that could be left out. -/
def hasSpareZero (s : List Char) : Bool :=
  s.head? == some '0' && s != ['0']

/-! ## Forms -/

/-- A mark of the form with a point or an exponent. -/
def isDecimalMark (c : Char) : Bool :=
  c == '.' || c == 'e' || c == 'E'

/-- A digit, or the underscore between two. -/
def isDigitOrBreak (c : Char) : Bool :=
  c.isDigit || c == '_'

/-- An integer whose radix was written. -/
def radixed? (radix : Nat) (digits : List Char) : Option Number :=
  if isGrouped (isDigitOf radix) digits then
    some (.integer false radix (withoutBreaks digits))
  else none

/-- An integer of radix ten.  From its first underscore on, only the characters
    beside underscores are checked, and they may be digits of radix sixteen; an
    underscore may also follow the sign. -/
def integer? (s : List Char) : Option Number :=
  let digits := withoutSign s
  let rest := digits.dropWhile Char.isDigit
  if !digits.isEmpty && rest.head?.all (· == '_') && !hasSpareZero digits &&
      hasInnerBreaks (isDigitOf 16) (isSigned s) digits then
    some (.integer (isNegative s) 10 (withoutBreaks digits))
  else none

/-- The exponent of a number whose text ends with it; no text has exponent 0. -/
def exponent? : List Char → Option Int
  | [] => some 0
  | c :: s =>
    let digits := withoutSign s
    if (c == 'e' || c == 'E') && !digits.isEmpty && isGrouped Char.isDigit digits then
      let size : Int := ofDigits 10 digits
      some (if isNegative s then -size else size)
    else none

/-- A number with a point, an exponent or both. -/
def decimal? (s : List Char) : Option Number :=
  let digits := withoutSign s
  let whole := digits.takeWhile isDigitOrBreak
  if whole.isEmpty || hasSpareZero whole ||
      !hasInnerBreaks Char.isDigit (isSigned s) whole then none
  else match digits.drop whole.length with
    | '.' :: rest =>
      let places := rest.takeWhile isDigitOrBreak
      if places.isEmpty || !hasInnerBreaks Char.isDigit false places then none
      else
        (exponent? (rest.drop places.length)).map fun e =>
          .decimal (ofDigits 10 (whole ++ places)) (e - (withoutBreaks places).length)
    | rest => (exponent? rest).map (.decimal (ofDigits 10 whole))

/-- The number that a text writes. -/
def of? (s : List Char) : Option Number :=
  let name := withoutSign s
  if name == ['i', 'n', 'f'] || name == ['n', 'a', 'n'] then some .special
  else match s with
    | '0' :: 'x' :: digits => radixed? 16 digits
    | '0' :: 'o' :: digits => radixed? 8 digits
    | '0' :: 'b' :: digits => radixed? 2 digits
    | s => if s.any isDecimalMark then decimal? s else integer? s

end Number

end SqlTokens.Toml
