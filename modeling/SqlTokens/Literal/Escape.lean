import SqlTokens.Byte

/-! # Escapes of string literals

    Nine bytes have a code that stands for them after a backslash.  A code that
    is not in the table stands for itself. -/

namespace SqlTokens.Escape

/-- The bytes that have a code, each with its code. -/
def pairs : List (UInt8 × UInt8) :=
  [(0x00, 0x30), (Byte.quote, Byte.quote), (Byte.doubleQuote, Byte.doubleQuote),
   (0x08, 0x62), (Byte.newline, 0x6e), (0x0d, 0x72), (0x09, 0x74), (0x1a, 0x5a),
   (Byte.backslash, Byte.backslash)]

/-- The code of a byte, if it has one. -/
def code? (b : UInt8) : Option UInt8 :=
  (pairs.find? fun pair => pair.1 == b).map Prod.snd

/-- The byte that has this code, if there is one. -/
def byte? (code : UInt8) : Option UInt8 :=
  (pairs.find? fun pair => pair.2 == code).map Prod.fst

/-- What a backslash before `code` denotes. -/
def decode (code : UInt8) : UInt8 :=
  (byte? code).getD code

/-- A byte as it is written inside a string literal. -/
def encodeByte (b : UInt8) : Bytes :=
  match code? b with
  | some code => [Byte.backslash, code]
  | none => [b]

/-- The string literal, between single quotes, that denotes `value`. -/
def encode (value : Bytes) : Bytes :=
  Byte.quote :: value.flatMap encodeByte ++ [Byte.quote]

end SqlTokens.Escape
