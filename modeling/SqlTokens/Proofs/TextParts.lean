import SqlTokens.Proofs.Utf8

/-! # Parts of texts

    A part of a text is not always a text: it may begin or end within a character.
    But a byte from ASCII is a character wherever it stands, and never a part of
    another one.  So a text may be taken apart at such a byte
    (`Utf8.IsText.of_append_cons`), and such bytes may be left out of it or exchanged
    for others (`Utf8.Revises.isText`). -/

namespace SqlTokens.Utf8

/-- Bytes that encode a text. -/
def IsText (bytes : Bytes) : Prop :=
  ∃ text, bytes = encode text

theorem isText_ofString (s : String) : IsText (ofString s) :=
  ⟨s.toList, rfl⟩

theorem isText_nil : IsText [] :=
  ⟨[], rfl⟩

theorem isText_of_ascii {bytes : Bytes} (h : ∀ b ∈ bytes, b < 0x80) : IsText bytes :=
  ⟨_, (ofString_toStringLossy h).symm⟩

theorem isText_utf8EncodeChar (c : Char) : IsText (String.utf8EncodeChar c) :=
  ⟨[c], (List.append_nil _).symm⟩

theorem IsText.append {s s' : Bytes} (h : IsText s) (h' : IsText s') : IsText (s ++ s') := by
  obtain ⟨text, rfl⟩ := h
  obtain ⟨text', rfl⟩ := h'
  exact ⟨text ++ text', List.flatMap_append.symm⟩

/-- A byte from ASCII is a character, so it may stand before any text. -/
theorem IsText.cons {b : UInt8} (hb : b < 0x80) {s : Bytes} (h : IsText s) : IsText (b :: s) :=
  (isText_of_ascii (List.forall_mem_singleton.2 hb)).append h

/-- What is shown of a text is all of it. -/
theorem IsText.ofString_toStringLossy {bytes : Bytes} (h : IsText bytes) :
    ofString (toStringLossy bytes) = bytes := by
  obtain ⟨text, rfl⟩ := h
  rw [toStringLossy, decodeLossy_encode, ofString, String.toList_ofList]

/-! ## Cutting at a byte from ASCII -/

/-- A character is a byte from ASCII, or has no such byte. -/
theorem utf8EncodeChar_cases (c : Char) :
    (∃ b, b < 0x80 ∧ String.utf8EncodeChar c = [b]) ∨
      ∀ b ∈ String.utf8EncodeChar c, 0x80 ≤ b := by
  -- Each byte of a longer encoding is made by adding to 0x80 or more.
  have hmore : ∀ n, 0x80 ≤ n → n < 256 → (0x80 : UInt8) ≤ UInt8.ofNat n := by
    intro n h h'
    rwa [UInt8.le_iff_toNat_le, toNat_ofNat h']
  have hvalid : c.val.toNat < 0xd800 ∨ 0xdfff < c.val.toNat ∧ c.val.toNat < 0x110000 := c.valid
  unfold String.utf8EncodeChar
  generalize c.val.toNat = v at hvalid
  dsimp only
  by_cases h1 : v ≤ 0x7f
  · refine .inl ⟨_, ?_, if_pos h1⟩
    rw [UInt8.lt_iff_toNat_lt, toNat_ofNat (by omega)]
    exact Nat.lt_succ_of_le h1
  · refine .inr ?_
    rw [if_neg h1]
    split
    · simp only [List.mem_cons, List.not_mem_nil, or_false, forall_eq_or_imp, forall_eq]
      exact ⟨hmore _ (by omega) (by omega), hmore _ (by omega) (by omega)⟩
    · split
      · simp only [List.mem_cons, List.not_mem_nil, or_false, forall_eq_or_imp, forall_eq]
        exact ⟨hmore _ (by omega) (by omega), hmore _ (by omega) (by omega),
          hmore _ (by omega) (by omega)⟩
      · simp only [List.mem_cons, List.not_mem_nil, or_false, forall_eq_or_imp, forall_eq]
        exact ⟨hmore _ (by omega) (by omega), hmore _ (by omega) (by omega),
          hmore _ (by omega) (by omega), hmore _ (by omega) (by omega)⟩

/-- **Cutting**: what stands before a byte from ASCII is a text, and so is what stands
    behind it. -/
theorem IsText.of_append_cons {a : UInt8} (ha : a < 0x80) {x y : Bytes}
    (h : IsText (x ++ a :: y)) : IsText x ∧ IsText y := by
  obtain ⟨text, htext⟩ := h
  induction text generalizing x with
  | nil => exact absurd htext (by simp [encode])
  | cons c text ih =>
    have hencode : encode (c :: text) = String.utf8EncodeChar c ++ encode text := rfl
    rw [hencode, List.append_eq_append_iff] at htext
    rcases htext with ⟨z, hc, hrest⟩ | ⟨z, hx, hrest⟩
    · cases z with
      | nil =>
        -- The byte comes right behind the first character.
        obtain ⟨-, hy⟩ := ih (x := []) hrest
        rw [List.append_nil] at hc
        exact ⟨hc ▸ isText_utf8EncodeChar c, hy⟩
      | cons b z =>
        -- It stands in the first character, so it is that character.
        obtain ⟨rfl, rfl⟩ := List.cons.inj hrest
        rcases utf8EncodeChar_cases c with ⟨b, -, hb⟩ | hmore
        · rw [hb] at hc
          obtain ⟨rfl, hz⟩ : x = [] ∧ z = [] := by
            cases x with
            | nil => exact ⟨rfl, (List.cons.inj hc).2.symm⟩
            | cons d x => exact absurd (List.cons.inj hc).2 (by simp)
          rw [hz]
          exact ⟨isText_nil, ⟨text, rfl⟩⟩
        · have hle : (0x80 : UInt8) ≤ a := hmore a (by simp [hc])
          exact absurd ha (UInt8.not_lt.2 hle)
    · -- It stands in what comes after the first character.
      obtain ⟨hz, hy⟩ := ih hrest.symm
      exact ⟨hx ▸ (isText_utf8EncodeChar c).append hz, hy⟩

/-- What comes behind the first byte of a text is a text, if that byte is from ASCII. -/
theorem IsText.of_cons {a : UInt8} (ha : a < 0x80) {s : Bytes} (h : IsText (a :: s)) :
    IsText s :=
  (of_append_cons (x := []) ha h).2

/-! ## Revising bytes from ASCII -/

/-- The second row of bytes is the first one with some bytes from ASCII left out, or
    exchanged for others. -/
inductive Revises : Bytes → Bytes → Prop
  | nil : Revises [] []
  | keep {s t : Bytes} (b : UInt8) (h : Revises s t) : Revises (b :: s) (b :: t)
  | leaveOut {s t : Bytes} {b : UInt8} (hb : b < 0x80) (h : Revises s t) : Revises (b :: s) t
  | exchange {s t : Bytes} {b c : UInt8} (hb : b < 0x80) (hc : c < 0x80) (h : Revises s t) :
    Revises (b :: s) (c :: t)

/-- Bytes that are not from ASCII are kept. -/
theorem Revises.of_append {x s t : Bytes} (hx : ∀ b ∈ x, 0x80 ≤ b) (h : Revises (x ++ s) t) :
    ∃ t', t = x ++ t' ∧ Revises s t' := by
  induction x generalizing t with
  | nil => exact ⟨t, rfl, h⟩
  | cons b x ih =>
    obtain ⟨hb, hx⟩ := List.forall_mem_cons.1 hx
    cases h with
    | keep _ h =>
      obtain ⟨t', rfl, h'⟩ := ih hx h
      exact ⟨t', rfl, h'⟩
    | leaveOut hlt _ => exact absurd hlt (UInt8.not_lt.2 hb)
    | exchange hlt _ _ => exact absurd hlt (UInt8.not_lt.2 hb)

/-- **Revision**: a text stays a text when bytes from ASCII are left out or exchanged. -/
theorem Revises.isText {s t : Bytes} (h : Revises s t) (hs : IsText s) : IsText t := by
  obtain ⟨text, rfl⟩ := hs
  induction text generalizing t with
  | nil =>
    cases h with
    | nil => exact isText_nil
  | cons c text ih =>
    have hencode : encode (c :: text) = String.utf8EncodeChar c ++ encode text := rfl
    rw [hencode] at h
    rcases utf8EncodeChar_cases c with ⟨b, hb, hc⟩ | hmore
    · rw [hc] at h
      cases h with
      | keep _ h => exact (ih h).cons hb
      | leaveOut _ h => exact ih h
      | exchange _ hd h => exact (ih h).cons hd
    · obtain ⟨t', rfl, h'⟩ := h.of_append hmore
      exact (isText_utf8EncodeChar c).append (ih h')

end SqlTokens.Utf8
