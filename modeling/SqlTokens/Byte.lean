/-! # Bytes of a statement

    A statement is read as a sequence of bytes; a character outside ASCII is
    several of them.  This module names the bytes that the lexical rules single
    out and the classes that they sort bytes into: letters, digits, blanks and
    digits of a radix up to sixteen.

    The classes are about ASCII alone, because the rules are: no byte from 0x80
    up is a letter, a digit or a blank. -/

namespace SqlTokens

/-- A statement, the text of a token or the content of a file. -/
abbrev Bytes : Type := List UInt8

namespace Byte

/-! ## Bytes with a name -/

@[match_pattern] abbrev newline : UInt8 := 0x0a
@[match_pattern] abbrev bang : UInt8 := 0x21
@[match_pattern] abbrev doubleQuote : UInt8 := 0x22
@[match_pattern] abbrev quote : UInt8 := 0x27
@[match_pattern] abbrev star : UInt8 := 0x2a
@[match_pattern] abbrev plus : UInt8 := 0x2b
@[match_pattern] abbrev dash : UInt8 := 0x2d
@[match_pattern] abbrev dot : UInt8 := 0x2e
@[match_pattern] abbrev slash : UInt8 := 0x2f
@[match_pattern] abbrev zero : UInt8 := 0x30
@[match_pattern] abbrev colon : UInt8 := 0x3a
@[match_pattern] abbrev less : UInt8 := 0x3c
@[match_pattern] abbrev equals : UInt8 := 0x3d
@[match_pattern] abbrev greater : UInt8 := 0x3e
@[match_pattern] abbrev question : UInt8 := 0x3f
@[match_pattern] abbrev backslash : UInt8 := 0x5c
@[match_pattern] abbrev backtick : UInt8 := 0x60

/-! ## Classes -/

/-- A letter of a word: `a` to `z`, `A` to `Z`, `_` and `@`. -/
def isLetter (b : UInt8) : Bool :=
  (0x61 ≤ b && b ≤ 0x7a) || (0x41 ≤ b && b ≤ 0x5a) || b == 0x5f || b == 0x40

/-- A decimal digit. -/
def isDigit (b : UInt8) : Bool :=
  0x30 ≤ b && b ≤ 0x39

/-- A byte that separates tokens: space, newline, carriage return, tab. -/
def isBlank (b : UInt8) : Bool :=
  b == 0x20 || b == newline || b == 0x0d || b == 0x09

/-- A byte that continues a word. -/
def isWordByte (b : UInt8) : Bool :=
  isLetter b || isDigit b

/-- A byte that continues the name of a placeholder. -/
def isNameByte (b : UInt8) : Bool :=
  isWordByte b || b == dot

/-- The value of a digit of radix sixteen, and 16 for whatever is none. -/
def digitValue (b : UInt8) : Nat :=
  if 0x30 ≤ b && b ≤ 0x39 then b.toNat - 0x30
  else if 0x61 ≤ b && b ≤ 0x66 then b.toNat - 0x61 + 10
  else if 0x41 ≤ b && b ≤ 0x46 then b.toNat - 0x41 + 10
  else 16

/-- The value of the digit that may come next; the end of the input has no digit. -/
def nextDigitValue : Option UInt8 → Nat
  | none => 16
  | some b => digitValue b

/-- A digit of radix sixteen. -/
def isHexDigit (b : UInt8) : Bool :=
  digitValue b < 16

/-- The letter that opens an exponent. -/
def isExponentMark (b : UInt8) : Bool :=
  b == 0x65 || b == 0x45

/-- The letter that follows the zero of a number of radix sixteen. -/
def isRadixMark (b : UInt8) : Bool :=
  b == 0x78 || b == 0x58

/-- A sign of an exponent. -/
def isSign (b : UInt8) : Bool :=
  b == plus || b == dash

/-- The lower-case form of an ASCII letter; every other byte is its own. -/
def toLower (b : UInt8) : UInt8 :=
  if 0x41 ≤ b && b ≤ 0x5a then b + 0x20 else b

end Byte

end SqlTokens
