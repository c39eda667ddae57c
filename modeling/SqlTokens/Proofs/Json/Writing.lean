import SqlTokens.Proofs.Json.Grammar

/-! # A JSON document is read as what was written

    What is written of a value is read as that value, in front of whatever may come behind
    it, but for what would make a number go on.

    * **Characters**: `ReadsString.writeChar` — a character that is escaped is read as it
      was, and so is any other.
    * **Rows**: `reads_row`, for the items of an array and for the fields of an object.
    * **Values**: `reads_writeAt`, and for a whole document `isDocument_write`. -/

namespace SqlTokens.Json

open Text (hexDigit hexValue?_hexDigit)

/-! ## Strings -/

/-- A character is escaped by a letter or by its number, or it stands for itself. -/
theorem writeChar_cases (c : Char) :
    (∃ e, escape? e = some c ∧ writeChar c = ['\\', e]) ∨
    (c < ' ' ∧ writeChar c =
      ['\\', 'u', '0', '0', hexDigit .lower (c.toNat / 16), hexDigit .lower (c.toNat % 16)]) ∨
    ((' ' ≤ c ∧ c ≠ '"' ∧ c ≠ '\\') ∧ writeChar c = [c]) := by
  unfold writeChar
  split
  · exact .inl ⟨_, rfl, rfl⟩
  · exact .inl ⟨_, rfl, rfl⟩
  · exact .inl ⟨_, rfl, rfl⟩
  · exact .inl ⟨_, rfl, rfl⟩
  · exact .inl ⟨_, rfl, rfl⟩
  · exact .inl ⟨_, rfl, rfl⟩
  · exact .inl ⟨_, rfl, rfl⟩
  · next hquote hbackslash _ _ _ _ _ =>
    by_cases hcontrol : c < ' '
    · rw [if_pos hcontrol]
      exact .inr (.inl ⟨hcontrol, rfl⟩)
    · rw [if_neg hcontrol]
      exact .inr (.inr ⟨⟨Char.not_lt.1 hcontrol, hquote, hbackslash⟩, rfl⟩)

/-- The number of a control character is written with two digits behind two zeros. -/
theorem isHexQuad_control {c : Char} (hc : c < ' ') :
    IsHexQuad '0' '0' (hexDigit .lower (c.toNat / 16)) (hexDigit .lower (c.toNat % 16))
      c.toNat := by
  have hlt : c.toNat < 32 := UInt32.lt_iff_toNat_lt.1 (Char.lt_def.1 hc)
  refine ⟨0, 0, c.toNat / 16, c.toNat % 16, rfl, rfl, ?_, ?_, ?_⟩
  · exact hexValue?_hexDigit .lower _ (by omega)
  · exact hexValue?_hexDigit .lower _ (by omega)
  · omega

/-- **Characters**: each is read as it was, whether it was escaped or not. -/
theorem ReadsString.writeChar {s text rest : List Char} (c : Char)
    (h : ReadsString s text rest) : ReadsString (writeChar c ++ s) (c :: text) rest := by
  rcases writeChar_cases c with ⟨e, he, hc⟩ | ⟨hcontrol, hc⟩ | ⟨hplain, hc⟩
  · rw [hc]
    exact .escaped he h
  · have hread := ReadsString.codePoint (isHexQuad_control hcontrol) c.valid h
    rw [Char.ofNat_toNat] at hread
    rw [hc]
    exact hread
  · rw [hc]
    exact .plain hplain h

theorem readsString_flatMap (text rest : List Char) :
    ReadsString (text.flatMap Json.writeChar ++ '"' :: rest) text rest := by
  induction text with
  | nil => exact .close
  | cons c text ih =>
    rw [List.flatMap_cons, List.append_assoc]
    exact ih.writeChar c

theorem reads_writeString (s : String) (rest : List Char) :
    ∃ s', writeString s ++ rest = '"' :: s' ∧ ReadsString s' s.toList rest := by
  refine ⟨s.toList.flatMap writeChar ++ '"' :: rest, ?_, readsString_flatMap _ _⟩
  simp [writeString]

/-! ## Numbers -/

/-- Decimal digits are as few as possible. -/
theorem toDigits_eq_zero (n : Nat) (h : (Nat.toDigits 10 n).head? = some '0') :
    Nat.toDigits 10 n = ['0'] := by
  -- By induction on the number: its first digit is that of its tenth part.
  induction n using Nat.strongRecOn with
  | ind n ih =>
    by_cases hn : n < 10
    · rw [Nat.toDigits_of_lt_base hn] at h ⊢
      exact congrArg ([·]) (Option.some.inj h)
    · have hdigits : Nat.toDigits 10 n =
          Nat.toDigits 10 (n / 10) ++ [Nat.digitChar (n % 10)] := by
        rw [Nat.toDigits_eq_if (by decide), if_neg hn]
      have hhead : (Nat.toDigits 10 n).head? = (Nat.toDigits 10 (n / 10)).head? := by
        obtain ⟨d, ds, hds⟩ := List.exists_cons_of_ne_nil
          (Nat.toDigits_ne_nil : Nat.toDigits 10 (n / 10) ≠ [])
        rw [hdigits, hds]
        rfl
      have hzero := ih (n / 10) (by omega) (hhead.symm.trans h)
      have hvalue : Nat.ofDigitChars 10 (Nat.toDigits 10 (n / 10)) 0 = n / 10 :=
        Nat.ofDigitChars_ten_toDigits
      rw [hzero] at hvalue
      have htenth : 0 = n / 10 := hvalue
      omega

theorem isNumeral_toDigits (n : Nat) : IsNumeral (Nat.toDigits 10 n) n where
  ne_nil := Nat.toDigits_ne_nil
  isDigit := fun d hd => Nat.isDigit_of_mem_toDigits (by decide) (by decide) hd
  isShortest := toDigits_eq_zero n
  value := Nat.ofDigitChars_ten_toDigits

/-! ## Rows -/

theorem skipSpace_newline (level : Nat) (s : List Char) :
    skipSpace (newline level ++ s) = skipSpace s := by
  have hspace : ∀ c ∈ newline level, isSpace c = true := by
    intro c hc
    rcases List.mem_cons.1 hc with rfl | hc
    · rfl
    · obtain ⟨-, rfl⟩ := List.mem_replicate.1 hc
      rfl
  exact List.dropWhile_append_of_pos hspace

/-- **Rows**: entries that are read one by one, on lines of their own, are read as a row
    up to their bracket. -/
theorem reads_row {α : Type} (text : α → List Char) {entry : α → Phrase} {row : List α → Phrase}
    {bracket : Char} (hbracket : isSpace bracket = false)
    (hlast : ∀ {a s s' rest}, Reads s (entry a) s' → skipSpace s' = bracket :: rest →
      Reads s (row [a]) rest)
    (hmore : ∀ {a as s s₁ s₂ rest}, Reads s (entry a) s₁ → skipSpace s₁ = ',' :: s₂ →
      Reads (skipSpace s₂) (row as) rest → Reads s (row (a :: as)) rest)
    (level : Nat) (rest : List Char) (a : α) (as : List α)
    (h : ∀ b ∈ a :: as, ∀ rest, rest.head?.any continuesNumber = false →
      Reads (text b ++ rest) (entry b) rest) :
    Reads (text a ++ (as.flatMap (fun b => ',' :: newline (level + 1) ++ text b) ++
      (newline level ++ bracket :: rest))) (row (a :: as)) rest := by
  -- By induction on the entries behind the first.
  induction as generalizing a with
  | nil =>
    refine hlast (h a List.mem_cons_self _ rfl) ?_
    rw [List.flatMap_nil, List.nil_append, skipSpace_newline]
    exact List.dropWhile_cons_of_neg (Bool.eq_false_iff.1 hbracket)
  | cons b as ih =>
    have hrest := ih b fun b hb => h b (List.mem_cons_of_mem a hb)
    rw [List.flatMap_cons, List.append_assoc, List.cons_append, List.cons_append]
    refine hmore (h a List.mem_cons_self _ rfl) rfl ?_
    rw [List.append_assoc, skipSpace_newline, hrest.skipSpace_eq]
    exact hrest

/-! ## Values -/

theorem writeAt_array (level : Nat) (items : List Json) :
    writeAt level (.array items) = enclose level '[' ']' (items.map (writeAt (level + 1))) := by
  rw [writeAt, List.attach_map_val]

/-- A field as it is written inside an object. -/
def writeField (level : Nat) (f : String × Json) : List Char :=
  writeString f.1 ++ [':', ' '] ++ writeAt level f.2

theorem reads_writeField {level : Nat} {f : String × Json} {rest : List Char}
    (h : Reads (writeAt level f.2 ++ rest) (.value f.2) rest) :
    Reads (writeField level f ++ rest) (.field f) rest := by
  obtain ⟨name, v⟩ := f
  obtain ⟨s, hs, hname⟩ := reads_writeString name (':' :: ' ' :: (writeAt level v ++ rest))
  have htext : writeField level (name, v) ++ rest = '"' :: s := by
    rw [← hs]
    simp [writeField]
  have hskip : skipSpace (' ' :: (writeAt level v ++ rest)) = writeAt level v ++ rest :=
    h.skipSpace_eq
  have hfield := Reads.field hname rfl (hskip.symm ▸ h)
  rw [htext]
  rwa [String.ofList_toList] at hfield

theorem writeAt_object (level : Nat) (fields : List (String × Json)) :
    writeAt level (.object fields) =
      enclose level '\x7b' '\x7d' (fields.map (writeField (level + 1))) := by
  rw [writeAt]
  exact congrArg _ (List.attach_map_val (f := writeField (level + 1)))

theorem enclose_cons (level : Nat) (left right : Char) (first rest : List Char)
    (more : List (List Char)) :
    enclose level left right (first :: more) ++ rest =
      left :: (newline (level + 1) ++ (first ++
        (more.flatMap (fun part => ',' :: newline (level + 1) ++ part) ++
          (newline level ++ right :: rest)))) := by
  simp [enclose]

/-- **Values**: what is written is read, on every level and in front of any text that
    goes on with no number. -/
theorem reads_writeAt (level : Nat) (v : Json) (rest : List Char)
    (h : rest.head?.any continuesNumber = false) :
    Reads (writeAt level v ++ rest) (.value v) rest := by
  induction level, v using writeAt.induct generalizing rest with
  | case1 level =>
    rw [writeAt]
    exact .null
  | case2 level n =>
    rw [writeAt]
    exact .number rfl (isNumeral_toDigits n) h
  | case3 level s =>
    obtain ⟨s', hs, hread⟩ := reads_writeString s rest
    rw [writeAt, hs]
    have hstring := Reads.string hread
    rwa [String.ofList_toList] at hstring
  | case4 level items ih =>
    rw [writeAt_array]
    cases items with
    | nil => exact .emptyArray rfl
    | cons first more =>
      have hentries : ∀ v ∈ first :: more, ∀ rest, rest.head?.any continuesNumber = false →
          Reads (writeAt (level + 1) v ++ rest) (.value v) rest := by
        intro v hv rest h
        exact ih ⟨v, hv⟩ rest h
      have hrow := reads_row _ (by decide) .lastItem .item level rest first more hentries
      rw [List.map_cons, enclose_cons, List.flatMap_map]
      refine .array ?_
      rw [skipSpace_newline, hrow.skipSpace_eq]
      exact hrow
  | case5 level fields ih =>
    rw [writeAt_object]
    cases fields with
    | nil => exact .emptyObject rfl
    | cons first more =>
      have hentries : ∀ f ∈ first :: more, ∀ rest, rest.head?.any continuesNumber = false →
          Reads (writeField (level + 1) f ++ rest) (.field f) rest := by
        intro f hf rest h
        exact reads_writeField (ih ⟨f, hf⟩ rest h)
      have hrow := reads_row _ (by decide) .lastField .moreFields level rest first more hentries
      rw [List.map_cons, enclose_cons, List.flatMap_map]
      refine .object ?_
      rw [skipSpace_newline, hrow.skipSpace_eq]
      exact hrow

/-- What is written of a value is a document that means it, and nothing else. -/
theorem isDocument_write (v : Json) :
    Reads v.write.toList (.value v) [] ∧ ∀ v', IsDocument v.write v' → v' = v := by
  have hreads : Reads v.write.toList (.value v) [] := by
    have h := reads_writeAt 0 v [] rfl
    rwa [List.append_nil, ← String.toList_ofList (l := writeAt 0 v)] at h
  refine ⟨hreads, ?_⟩
  intro v' h'
  have hdocument : IsDocument v.write v := ⟨[], hreads.skipSpace_eq.symm ▸ hreads, rfl⟩
  exact hdocument.unique h'

end SqlTokens.Json
