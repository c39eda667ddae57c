import SqlTokens.Byte

/-! # Operators and punctuation

    The signs of the dialect, with their spelling.  Twelve of them delimit
    themselves: their byte is the whole token wherever it starts one.  The
    others share a first byte with a longer sign, a number or a comment. -/

namespace SqlTokens

/-- An operator or a punctuation mark. -/
inductive Operator where
  -- One byte that delimits itself
  | equal | comma | semicolon | leftParen | rightParen | plus | multiply | modulo
  | bitAnd | bitOr | bitXor | tilde
  -- One byte that may also begin something longer
  | dot | divide | minus | less | greater
  -- Several bytes
  | notEqual | lessEqual | greaterEqual | nullSafeEqual
  deriving DecidableEq

namespace Operator

/-- How an operator is written.  `notEqual` may also be written `!=`. -/
def spelling : Operator → String
  | .equal => "="
  | .comma => ","
  | .semicolon => ";"
  | .leftParen => "("
  | .rightParen => ")"
  | .plus => "+"
  | .multiply => "*"
  | .modulo => "%"
  | .bitAnd => "&"
  | .bitOr => "|"
  | .bitXor => "^"
  | .tilde => "~"
  | .dot => "."
  | .divide => "/"
  | .minus => "-"
  | .less => "<"
  | .greater => ">"
  | .notEqual => "<>"
  | .lessEqual => "<="
  | .greaterEqual => ">="
  | .nullSafeEqual => "<=>"

/-- The operator that byte `b` is by itself, whatever follows it. -/
def ofSelfDelimiting? (b : UInt8) : Option Operator :=
  match b with
  | 0x3d => some .equal
  | 0x2c => some .comma
  | 0x3b => some .semicolon
  | 0x28 => some .leftParen
  | 0x29 => some .rightParen
  | 0x2b => some .plus
  | 0x2a => some .multiply
  | 0x25 => some .modulo
  | 0x26 => some .bitAnd
  | 0x7c => some .bitOr
  | 0x5e => some .bitXor
  | 0x7e => some .tilde
  | _ => none

end Operator

end SqlTokens
