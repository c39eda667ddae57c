import SqlTokens.Lexeme.Basic
import SqlTokens.Lexeme.Span

/-! # Numbers

    A number is of radix sixteen (`0x` and any digits, even none) or decimal:
    digits, a fraction, an exponent, of which the fraction and the exponent may
    be missing or have no digits.  A fraction may also stand first, if a digit
    follows its point.

    Digits that start with a zero are a number of radix eight, unless a fraction
    or an exponent follows: there an 8 or a 9 makes them malformed.

    Each rule takes as much as it can, and the text of a number is its source. -/

namespace SqlTokens.Number

/-- The longest run of decimal digits. -/
def digits : Span :=
  Span.run Byte.isDigit

/-- A point and the digits after it. -/
def fraction : Span :=
  Span.opened (· == Byte.dot) digits

/-- An `e`, a sign if there is one, and the digits after it. -/
def exponent : Span :=
  Span.opened Byte.isExponentMark ((Span.one Byte.isSign).followedBy digits)

/-- A decimal number that starts with a digit. -/
def decimal : Span :=
  digits.followedBy (fraction.followedBy exponent)

/-- A decimal number that starts with its point. -/
def pointed : Span :=
  fraction.followedBy exponent

/-- A number of radix sixteen; empty where none starts. -/
def hexadecimal : Span :=
  Span.opened (· == Byte.zero) (Span.opened Byte.isRadixMark (Span.run Byte.isHexDigit))

/-- A zero and the mark of radix sixteen at the head. -/
def startsHexadecimal : Bytes → Bool
  | b :: mark :: _ => b == Byte.zero && Byte.isRadixMark mark
  | _ => false

/-- A fraction or an exponent at the head. -/
def startsFraction : Bytes → Bool
  | [] => false
  | b :: _ => b == Byte.dot || Byte.isExponentMark b

/-- Digits of radix eight that have an 8 or a 9 among them. -/
def isIllegalOctal (s : Bytes) : Bool :=
  let ds := digits s
  ds.head? == some Byte.zero && ds.any (fun d => d == 0x38 || d == 0x39)
    && !startsFraction (s.drop ds.length)

end SqlTokens.Number

namespace SqlTokens.Lexeme

/-- The number at the head of `s`, whose first byte is a digit. -/
def number (s : Bytes) : Lexeme :=
  if Number.startsHexadecimal s then verbatim .number (Number.hexadecimal s)
  else if Number.isIllegalOctal s then verbatim .malformed (Number.digits s)
  else verbatim .number (Number.decimal s)

end SqlTokens.Lexeme
