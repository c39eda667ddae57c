import SqlTokens.File
import SqlTokens.Proofs.TextParts

/-! # Only texts are read

    Reading takes back each text that was written.  It also takes nothing else: what is read
    as a character is the encoding of that character (`Utf8.encode_of_next`), so the bytes in
    which no part is ill-formed are those of a text (`Utf8.decode?_eq_some_iff`). -/

namespace SqlTokens.Utf8

/-! ## One character -/

/-- A byte that is read on with lies between the bounds and gives six bits. -/
theorem following_eq_some {n bits code : Nat} {low high : UInt8} {rest left : Bytes}
    (h : following (n + 1) low high bits rest = (some code, left)) :
    ∃ d more, rest = d :: more ∧ low.toNat ≤ d.toNat ∧ d.toNat ≤ high.toNat ∧
      following n 0x80 0xbf (bits * 64 + (d.toNat - 0x80)) more = (some code, left) := by
  cases rest with
  | nil => simp [following] at h
  | cons d more =>
    unfold following at h
    by_cases hbounds : (low ≤ d && d ≤ high) = true
    · rw [if_pos hbounds] at h
      simp only [Bool.and_eq_true, decide_eq_true_eq, UInt8.le_iff_toNat_le] at hbounds
      exact ⟨d, more, rfl, hbounds.1, hbounds.2, h⟩
    · simp [hbounds] at h

theorem val_ofNat {v : Nat} (h : v < 0xd800 ∨ 0xdfff < v ∧ v < 0x110000) :
    (Char.ofNat v).val.toNat = v := by
  have hvalid : v.isValidChar := h
  rw [Char.ofNat, dif_pos hvalid]
  rfl

theorem ofNat_eq_of_toNat {b : UInt8} {n : Nat} (h : b.toNat = n) : UInt8.ofNat n = b := by
  rw [← h, UInt8.ofNat_toNat]

section
variable {bits code : Nat} {low high b : UInt8} {rest left : Bytes}

/-- What is read after the leading byte of two is a character of two bytes. -/
theorem encode_of_two (hb : b.toNat = bits + 0xc0) (h2 : 2 ≤ bits) (h32 : bits < 32)
    (h : following 1 0x80 0xbf bits rest = (some code, left)) :
    b :: rest = String.utf8EncodeChar (Char.ofNat code) ++ left := by
  obtain ⟨d, more, rfl, hlow, hhigh, hlast⟩ := following_eq_some h
  simp only [following, Prod.mk.injEq, Option.some.injEq] at hlast
  obtain ⟨rfl, rfl⟩ := hlast
  have hlow' : 0x80 ≤ d.toNat := hlow
  have hhigh' : d.toNat ≤ 0xbf := hhigh
  unfold String.utf8EncodeChar
  rw [val_ofNat (by omega)]
  dsimp only
  rw [if_neg (by omega), if_pos (by omega), ofNat_eq_of_toNat (b := b) (by omega),
    ofNat_eq_of_toNat (b := d) (by omega)]
  rfl

/-- What is read after the leading byte of three is a character of three bytes, if the bounds
    on the second byte leave out overlong forms and surrogates. -/
theorem encode_of_three (hb : b.toNat = bits + 0xe0) (h16 : bits < 16)
    (hbounds : ∀ d, low.toNat ≤ d → d ≤ high.toNat → 0x80 ≤ d ∧ d ≤ 0xbf ∧
      0x20 ≤ bits * 64 + (d - 0x80) ∧ ¬(0x360 ≤ bits * 64 + (d - 0x80) ∧
        bits * 64 + (d - 0x80) < 0x380))
    (h : following 2 low high bits rest = (some code, left)) :
    b :: rest = String.utf8EncodeChar (Char.ofNat code) ++ left := by
  obtain ⟨d, more, rfl, hlow, hhigh, hmore⟩ := following_eq_some h
  obtain ⟨d', more, rfl, hlow', hhigh', hlast⟩ := following_eq_some hmore
  simp only [following, Prod.mk.injEq, Option.some.injEq] at hlast
  obtain ⟨rfl, rfl⟩ := hlast
  obtain ⟨hd, hd', hleast, hgap⟩ := hbounds d.toNat hlow hhigh
  have hlow'' : 0x80 ≤ d'.toNat := hlow'
  have hhigh'' : d'.toNat ≤ 0xbf := hhigh'
  unfold String.utf8EncodeChar
  rw [val_ofNat (by omega)]
  dsimp only
  rw [if_neg (by omega), if_neg (by omega), if_pos (by omega),
    ofNat_eq_of_toNat (b := b) (by omega), ofNat_eq_of_toNat (b := d) (by omega),
    ofNat_eq_of_toNat (b := d') (by omega)]
  rfl

/-- What is read after the leading byte of four is a character of four bytes, if the bounds on
    the second byte leave out overlong forms and what is no code point. -/
theorem encode_of_four (hb : b.toNat = bits + 0xf0)
    (hbounds : ∀ d, low.toNat ≤ d → d ≤ high.toNat → 0x80 ≤ d ∧ d ≤ 0xbf ∧
      0x10 ≤ bits * 64 + (d - 0x80) ∧ bits * 64 + (d - 0x80) < 0x110)
    (h : following 3 low high bits rest = (some code, left)) :
    b :: rest = String.utf8EncodeChar (Char.ofNat code) ++ left := by
  obtain ⟨d, more, rfl, hlow, hhigh, hmore⟩ := following_eq_some h
  obtain ⟨d', more, rfl, hlow', hhigh', hmore'⟩ := following_eq_some hmore
  obtain ⟨d'', more, rfl, hlow'', hhigh'', hlast⟩ := following_eq_some hmore'
  simp only [following, Prod.mk.injEq, Option.some.injEq] at hlast
  obtain ⟨rfl, rfl⟩ := hlast
  obtain ⟨hd, hd', hleast, hmost⟩ := hbounds d.toNat hlow hhigh
  have hbelow : 0x80 ≤ d'.toNat := hlow'
  have habove : d'.toNat ≤ 0xbf := hhigh'
  have hbelow' : 0x80 ≤ d''.toNat := hlow''
  have habove' : d''.toNat ≤ 0xbf := hhigh''
  unfold String.utf8EncodeChar
  rw [val_ofNat (by omega)]
  dsimp only
  rw [if_neg (by omega), if_neg (by omega), if_neg (by omega),
    ofNat_eq_of_toNat (b := b) (by omega), ofNat_eq_of_toNat (b := d) (by omega),
    ofNat_eq_of_toNat (b := d') (by omega), ofNat_eq_of_toNat (b := d'') (by omega)]
  rfl

end

/-- What is read as a character is the encoding of it. -/
theorem encode_of_next {b : UInt8} {rest left : Bytes} {c : Char}
    (h : next b rest = (some c, left)) : b :: rest = String.utf8EncodeChar c ++ left := by
  unfold next at h
  by_cases hascii : b < 0x80
  · rw [if_pos hascii, Prod.mk.injEq, Option.some.injEq] at h
    obtain ⟨rfl, rfl⟩ := h
    rw [utf8EncodeChar_ofNat hascii]
    rfl
  · rw [if_neg hascii] at h
    cases hlead : lead? b with
    | none => simp [hlead] at h
    | some lead =>
      obtain ⟨code, hcode, rfl⟩ : ∃ code, following lead.following lead.low lead.high lead.bits
          rest = (some code, left) ∧ Char.ofNat code = c := by
        simp only [hlead, Prod.mk.injEq, Option.map_eq_some_iff] at h
        obtain ⟨⟨code, hcode, hc⟩, hleft⟩ := h
        exact ⟨code, Prod.ext hcode hleft, hc⟩
      -- One case for each row of the table of leading bytes.
      have hlt : b.toNat < 256 := b.toNat_lt
      rw [← UInt8.ofNat_toNat (x := b), lead?_ofNat hlt] at hlead
      split at hlead
      · obtain rfl := Option.some.inj hlead
        exact encode_of_two (by dsimp only; omega) (by dsimp only; omega) (by dsimp only; omega)
          hcode
      split at hlead
      · obtain rfl := Option.some.inj hlead
        refine encode_of_three (by dsimp only; omega) (by dsimp only; omega) ?_ hcode
        intro d (hlow : 0xa0 ≤ d) (hhigh : d ≤ 0xbf)
        dsimp only
        omega
      split at hlead
      · obtain rfl := Option.some.inj hlead
        refine encode_of_three (by dsimp only; omega) (by dsimp only; omega) ?_ hcode
        intro d (hlow : 0x80 ≤ d) (hhigh : d ≤ 0x9f)
        dsimp only
        omega
      split at hlead
      · obtain rfl := Option.some.inj hlead
        refine encode_of_three (by dsimp only; omega) (by dsimp only; omega) ?_ hcode
        intro d (hlow : 0x80 ≤ d) (hhigh : d ≤ 0xbf)
        dsimp only
        omega
      split at hlead
      · obtain rfl := Option.some.inj hlead
        refine encode_of_four (by dsimp only; omega) ?_ hcode
        intro d (hlow : 0x90 ≤ d) (hhigh : d ≤ 0xbf)
        dsimp only
        omega
      split at hlead
      · obtain rfl := Option.some.inj hlead
        refine encode_of_four (by dsimp only; omega) ?_ hcode
        intro d (hlow : 0x80 ≤ d) (hhigh : d ≤ 0xbf)
        dsimp only
        omega
      split at hlead
      · obtain rfl := Option.some.inj hlead
        refine encode_of_four (by dsimp only; omega) ?_ hcode
        intro d (hlow : 0x80 ≤ d) (hhigh : d ≤ 0x8f)
        dsimp only
        omega
      · cases hlead

/-! ## Whole texts -/

/-- Bytes that are read without an ill-formed part are those of the characters. -/
theorem eq_encode_of_units {bytes : Bytes} {text : List Char} (h : units bytes = text.map some) :
    bytes = encode text := by
  induction text generalizing bytes with
  | nil =>
    cases bytes with
    | nil => rfl
    | cons b rest => simp [units_cons] at h
  | cons c text ih =>
    cases bytes with
    | nil => simp [units, unitsOnto] at h
    | cons b rest =>
      rw [units_cons, List.map_cons, List.cons.injEq] at h
      obtain ⟨hfirst, hrest⟩ := h
      have hbytes := encode_of_next (Prod.ext hfirst rfl : next b rest = (some c, (next b rest).2))
      rw [hbytes, ih hrest]
      rfl

/-- Units without an ill-formed part are characters. -/
theorem map_some_of_all {read : List (Option Char)} (h : read.all Option.isSome = true) :
    read = (read.filterMap id).map some := by
  induction read with
  | nil => rfl
  | cons unit read ih =>
    rw [List.all_cons, Bool.and_eq_true] at h
    obtain ⟨hunit, hread⟩ := h
    obtain ⟨c, rfl⟩ := Option.isSome_iff_exists.1 hunit
    have hrest := ih hread
    simpa using hrest

/-- **Reading**: a text is read just from the bytes that encode it. -/
theorem decode?_eq_some_iff {bytes : Bytes} {text : List Char} :
    decode? bytes = some text ↔ bytes = encode text := by
  constructor
  · intro h
    unfold decode? at h
    by_cases hall : (units bytes).all Option.isSome = true
    · simp only [hall, if_true, Option.some.injEq] at h
      apply eq_encode_of_units
      rw [← h]
      exact map_some_of_all hall
    · simp [hall] at h
  · rintro rfl
    simp [decode?, units_encode, List.filterMap_map]

theorem toString?_eq_some_iff {bytes : Bytes} {s : String} :
    toString? bytes = some s ↔ bytes = ofString s := by
  rw [toString?, Option.map_eq_some_iff]
  constructor
  · rintro ⟨text, htext, rfl⟩
    rw [ofString, String.toList_ofList]
    exact decode?_eq_some_iff.1 htext
  · intro h
    exact ⟨s.toList, decode?_eq_some_iff.2 h, String.ofList_toList⟩

/-- The bytes of a text are those that can be read. -/
theorem isText_iff_toString? {bytes : Bytes} :
    IsText bytes ↔ ∃ text, toString? bytes = some text := by
  constructor
  · rintro ⟨text, rfl⟩
    exact ⟨String.ofList text, by rw [toString?_eq_some_iff, ofString, String.toList_ofList]⟩
  · rintro ⟨text, htext⟩
    rw [toString?_eq_some_iff.1 htext]
    exact isText_ofString text

/-- A value that may be absent is read as a text if it is there and is the text's bytes. -/
theorem bind_toString?_eq_some_iff {value : Option Bytes} {text : String} :
    value.bind toString? = some text ↔ value = some (ofString text) := by
  cases value with
  | none => simp
  | some bytes => rw [Option.bind_some, toString?_eq_some_iff, Option.some.injEq]

theorem bind_toString?_eq_none_iff {value : Option Bytes} :
    value.bind toString? = none ↔ ∀ text, value ≠ some (ofString text) := by
  simp only [Option.eq_none_iff_forall_ne_some, ne_eq, bind_toString?_eq_some_iff]

/-- A file is read as a text if that text is its content. -/
theorem readText_eq_ok_iff {content : Option Bytes} {text : String} :
    readText content = .ok text ↔ content = some (ofString text) := by
  unfold readText
  cases content with
  | none => simp
  | some bytes =>
    rw [Option.some.injEq, ← toString?_eq_some_iff]
    cases hread : toString? bytes with
    | none => simp [hread]
    | some text' => simp [hread]

end SqlTokens.Utf8
