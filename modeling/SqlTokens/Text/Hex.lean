/-! # Digits of radix sixteen

    They are written in one letter case and read in either. -/

namespace SqlTokens.Text

/-- The case in which letters are written. -/
inductive LetterCase where
  | lower
  | upper
  deriving DecidableEq

/-- The letter A. -/
def LetterCase.firstLetter : LetterCase → Char
  | .lower => 'a'
  | .upper => 'A'

/-- A digit of radix sixteen. -/
def hexDigit (letters : LetterCase) (n : Nat) : Char :=
  if n < 10 then Char.ofNat ('0'.toNat + n)
  else Char.ofNat (letters.firstLetter.toNat + (n - 10))

/-- The value of a digit of radix sixteen, in either case. -/
def hexValue? (c : Char) : Option Nat :=
  if '0' ≤ c && c ≤ '9' then some (c.toNat - '0'.toNat)
  else if 'a' ≤ c && c ≤ 'f' then some (c.toNat - 'a'.toNat + 10)
  else if 'A' ≤ c && c ≤ 'F' then some (c.toNat - 'A'.toNat + 10)
  else none

theorem hexValue?_hexDigit (letters : LetterCase) :
    ∀ n < 16, hexValue? (hexDigit letters n) = some n := by
  cases letters with
  | lower => decide
  | upper => decide

end SqlTokens.Text
