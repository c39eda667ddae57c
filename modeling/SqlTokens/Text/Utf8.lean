import SqlTokens.Byte

/-! # UTF-8

    Characters as bytes, and bytes as characters.  `encode` is the encoding of
    a text.  Reading takes one character at a time; where the bytes are
    ill-formed it takes the longest part that could still have begun a
    character, and at least one byte.  `units` lists what was taken, with `none`
    for each ill-formed part, and the two readings are views of that list:

    * `decode?` is the text, if no part is ill-formed;
    * `decodeLossy` shows U+FFFD for each ill-formed part. -/

namespace SqlTokens.Utf8

/-! ## Writing -/

/-- The encoding of a text. -/
def encode (text : List Char) : Bytes :=
  text.flatMap String.utf8EncodeChar

/-- The encoding of a string. -/
def ofString (s : String) : Bytes :=
  encode s.toList

/-! ## Reading -/

/-- What a leading byte announces. -/
structure Lead where
  /-- How many bytes follow it. -/
  following : Nat
  /-- The least byte that may come second. -/
  low : UInt8
  /-- The greatest byte that may come second. -/
  high : UInt8
  /-- The bits of the code point that the leading byte holds. -/
  bits : Nat

/-- The meaning of a leading byte from 0x80 up, if it can lead at all.  The
    bounds on the second byte leave out overlong forms, surrogates and whatever
    lies above U+10FFFF. -/
def lead? (b : UInt8) : Option Lead :=
  if 0xc2 ≤ b && b ≤ 0xdf then some ⟨1, 0x80, 0xbf, b.toNat - 0xc0⟩
  else if b == 0xe0 then some ⟨2, 0xa0, 0xbf, 0⟩
  else if b == 0xed then some ⟨2, 0x80, 0x9f, 13⟩
  else if 0xe1 ≤ b && b ≤ 0xef then some ⟨2, 0x80, 0xbf, b.toNat - 0xe0⟩
  else if b == 0xf0 then some ⟨3, 0x90, 0xbf, 0⟩
  else if 0xf1 ≤ b && b ≤ 0xf3 then some ⟨3, 0x80, 0xbf, b.toNat - 0xf0⟩
  else if b == 0xf4 then some ⟨3, 0x80, 0x8f, 4⟩
  else none

/-- The code point whose first bits are `bits`, read on through `n` more bytes
    of which the first lies between `low` and `high`; and what is left.  The
    byte that does not fit is left too. -/
def following : Nat → UInt8 → UInt8 → Nat → Bytes → Option Nat × Bytes
  | 0, _, _, bits, rest => (some bits, rest)
  | _ + 1, _, _, _, [] => (none, [])
  | n + 1, low, high, bits, b :: rest =>
    if low ≤ b && b ≤ high then
      following n 0x80 0xbf (bits * 64 + (b.toNat - 0x80)) rest
    else (none, b :: rest)

/-- The character that starts with byte `b`, or `none` for an ill-formed part;
    and what is left. -/
def next (b : UInt8) (rest : Bytes) : Option Char × Bytes :=
  if b < 0x80 then (some (Char.ofNat b.toNat), rest)
  else match lead? b with
    | none => (none, rest)
    | some lead =>
      let (code, left) := following lead.following lead.low lead.high lead.bits rest
      (code.map Char.ofNat, left)

theorem length_following_le (n : Nat) (low high : UInt8) (bits : Nat) (rest : Bytes) :
    (following n low high bits rest).2.length ≤ rest.length := by
  induction n generalizing low high bits rest with
  | zero => simp [following]
  | succ n ih =>
    cases rest with
    | nil => simp [following]
    | cons b rest =>
      simp only [following]
      split
      · exact Nat.le_succ_of_le (ih _ _ _ _)
      · simp

/-- A character takes at least its first byte. -/
theorem length_next_le (b : UInt8) (rest : Bytes) : (next b rest).2.length ≤ rest.length := by
  unfold next
  split
  · simp
  · split
    · simp
    · exact length_following_le _ _ _ _ _

/-- The units of `bytes` after those of `read`, which are in reverse. -/
def unitsOnto (read : List (Option Char)) : Bytes → List (Option Char)
  | [] => read.reverse
  | b :: rest => unitsOnto ((next b rest).1 :: read) (next b rest).2
termination_by bytes => bytes.length
decreasing_by exact Nat.lt_succ_of_le (length_next_le b rest)

/-- The characters of `bytes` in order, with `none` for each ill-formed part. -/
def units (bytes : Bytes) : List (Option Char) :=
  unitsOnto [] bytes

/-- The text that `bytes` encode, if they are well formed. -/
def decode? (bytes : Bytes) : Option (List Char) :=
  let read := units bytes
  if read.all Option.isSome then some (read.filterMap id) else none

/-- The text of `bytes`, with the replacement character for each ill-formed part. -/
def decodeLossy (bytes : Bytes) : List Char :=
  (units bytes).map (Option.getD · (Char.ofNat 0xfffd))

/-- The string that `bytes` encode, if they are well formed. -/
def toString? (bytes : Bytes) : Option String :=
  (decode? bytes).map String.ofList

/-- The string of `bytes`, with the replacement character for each ill-formed part. -/
def toStringLossy (bytes : Bytes) : String :=
  String.ofList (decodeLossy bytes)

end SqlTokens.Utf8
