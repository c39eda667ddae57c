import SqlTokens.Proofs.Decoding
import SqlTokens.Proofs.Substitution
import SqlTokens.Proofs.TextPreservation

/-! # Literals of texts

    A string literal is written byte by byte, and a byte may get a backslash and a code in
    its place.  That never happens to a part of a longer character: the bytes that have a
    code are from ASCII, and so are their codes.  So the literal of a text is a text, and a
    literal that is a text denotes one (`Escape.isText_encode_iff`); and a statement stays a
    text when a literal takes the place of a `?`. -/

namespace SqlTokens

open Utf8 (IsText ofString)

namespace Escape

/-- A byte that has a code is from ASCII, and so is the code. -/
theorem lt_of_code? {b code : UInt8} (h : code? b = some code) : b < 0x80 ∧ code < 0x80 := by
  have hall : pairs.all (fun pair => pair.1 < 0x80 && pair.2 < 0x80) = true := by decide
  simpa using List.all_eq_true.1 hall _ (mem_pairs h)

/-- A byte that is no character by itself is written as it is. -/
theorem encodeByte_of_le {b : UInt8} (hb : 0x80 ≤ b) : encodeByte b = [b] := by
  unfold encodeByte
  cases hcode : code? b with
  | none => rfl
  | some code => exact absurd (lt_of_code? hcode).1 (UInt8.not_lt.2 hb)

/-- A byte from ASCII is written by bytes from ASCII. -/
theorem isText_encodeByte {b : UInt8} (hb : b < 0x80) : IsText (encodeByte b) := by
  apply Utf8.isText_of_ascii
  unfold encodeByte
  cases hcode : code? b with
  | none => simpa using hb
  | some code =>
    intro c hc
    rcases List.mem_cons.1 hc with rfl | hc
    · decide
    · rw [List.mem_singleton.1 hc]
      exact (lt_of_code? hcode).2

theorem flatMap_encodeByte_of_le {bytes : Bytes} (h : ∀ b ∈ bytes, 0x80 ≤ b) :
    bytes.flatMap encodeByte = bytes := by
  induction bytes with
  | nil => rfl
  | cons b bytes ih =>
    obtain ⟨hb, hbytes⟩ := List.forall_mem_cons.1 h
    rw [List.flatMap_cons, encodeByte_of_le hb, ih hbytes]
    rfl

/-- What stands between the quotes of the literal of a text is a text. -/
theorem isText_flatMap_encodeByte {value : Bytes} (h : IsText value) :
    IsText (value.flatMap encodeByte) := by
  obtain ⟨text, rfl⟩ := h
  -- By induction on the characters, of which those outside ASCII are left alone.
  induction text with
  | nil => exact Utf8.isText_nil
  | cons c text ih =>
    have hencode : Utf8.encode (c :: text) = String.utf8EncodeChar c ++ Utf8.encode text := rfl
    rw [hencode, List.flatMap_append]
    apply IsText.append _ ih
    rcases Utf8.utf8EncodeChar_cases c with ⟨b, hb, hc⟩ | hmore
    · rw [hc, List.flatMap_singleton]
      exact isText_encodeByte hb
    · rw [flatMap_encodeByte_of_le hmore]
      exact Utf8.isText_utf8EncodeChar c

/-- What stands between the quotes is the value, if the backslashes are left out and the codes
    exchanged for what they denote. -/
theorem revises_flatMap_encodeByte (value : Bytes) :
    Utf8.Revises (value.flatMap encodeByte) value := by
  have hrevises := Quoted.revises_meaning (d := Byte.quote) (by decide) (value.map item)
  rw [List.flatMap_map, List.map_map] at hrevises
  simpa [Function.comp_def, item_source, item_meaning] using hrevises

/-- A literal behind a text and before a text. -/
theorem isText_splice_iff {a s : Bytes} (ha : IsText a) (hs : IsText s) (value : Bytes) :
    IsText (a ++ encode value ++ s) ↔ IsText value := by
  have hquote : Byte.quote < 0x80 := by decide
  have hsplice : a ++ encode value ++ s =
      a ++ Byte.quote :: (value.flatMap encodeByte ++ Byte.quote :: s) := by
    simp [encode]
  rw [hsplice]
  constructor
  · intro h
    obtain ⟨-, hbody⟩ := h.of_append_cons hquote
    exact (revises_flatMap_encodeByte value).isText (hbody.of_append_cons hquote).1
  · intro h
    exact ha.append (((isText_flatMap_encodeByte h).append (hs.cons hquote)).cons hquote)

/-- **Literals of texts**: the literal of a value is a text exactly if the value is one, and
    so it can be read exactly if the value can.  If a statement is a text, it is one with a
    literal in the place of a `?` exactly if the value of the literal is one. -/
theorem isText_encode_iff (value : Bytes) :
    (IsText (encode value) ↔ IsText value) ∧
    ((∃ text, Utf8.toString? (encode value) = some text) ↔
      ∃ text, Utf8.toString? value = some text) ∧
    ∀ a s, IsText (a ++ Byte.question :: s) →
      (IsText (a ++ encode value ++ s) ↔ IsText value) := by
  have halone : IsText (encode value) ↔ IsText value := by
    have hsplice := isText_splice_iff Utf8.isText_nil Utf8.isText_nil value
    rwa [List.nil_append, List.append_nil] at hsplice
  refine ⟨halone, ?_, ?_⟩
  · rw [← Utf8.isText_iff_toString?, ← Utf8.isText_iff_toString?]
    exact halone
  · intro a s h
    -- A `?` is a character, so a text stands before it and another one behind it.
    obtain ⟨ha, hs⟩ := h.of_append_cons (by decide)
    exact isText_splice_iff ha hs value

/-- A quote and a newline get a backslash, the two bytes of an accented letter do not, and one
    of them alone stays no text. -/
theorem isText_encode_iff_accented :
    IsText (ofString "x = " ++ Byte.question :: ofString ", é") ∧
    encode (ofString "é'\n") = ofString "'é\\'\\n'" ∧ IsText (encode (ofString "é'\n")) ∧
    IsText (ofString "x = " ++ encode (ofString "é'\n") ++ ofString ", é") ∧
    ¬IsText (encode [0xc3]) ∧
    ¬IsText (ofString "x = " ++ encode [0xc3] ++ ofString ", é") := by
  have hstatement : IsText (ofString "x = " ++ Byte.question :: ofString ", é") :=
    Utf8.isText_ofString "x = ?, é"
  have hpart : ¬IsText [0xc3] := by
    have hunread : Utf8.toString? [0xc3] = none := by decide +kernel
    simp [Utf8.isText_iff_toString?, hunread]
  obtain ⟨hliteral, -, hsplice⟩ := isText_encode_iff (ofString "é'\n")
  obtain ⟨hbroken, -, hbroken'⟩ := isText_encode_iff [0xc3]
  have hvalue := Utf8.isText_ofString "é'\n"
  exact ⟨hstatement, by decide +kernel, hliteral.2 hvalue, (hsplice _ _ hstatement).2 hvalue,
    fun h => hpart (hbroken.1 h), fun h => hpart ((hbroken' _ _ hstatement).1 h)⟩

end Escape

end SqlTokens
