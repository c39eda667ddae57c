import SqlTokens.Text.Utf8

/-! # Texts are read back

    Reading takes back each character that was written, whatever comes after it
    (`Utf8.next_utf8EncodeChar`); so a text survives its encoding, and no part of it
    is ill-formed (`Utf8.units_encode`).  Bytes from ASCII are always a text. -/

namespace SqlTokens.Utf8

/-! ## One character -/

theorem toNat_ofNat {n : Nat} (h : n < 256) : (UInt8.ofNat n).toNat = n :=
  UInt8.toNat_ofNat_of_lt h

/-- The meaning of a leading byte by its number. -/
theorem lead?_ofNat {n : Nat} (h : n < 256) :
    lead? (UInt8.ofNat n) =
      if 0xc2 ≤ n ∧ n ≤ 0xdf then some ⟨1, 0x80, 0xbf, n - 0xc0⟩
      else if n = 0xe0 then some ⟨2, 0xa0, 0xbf, 0⟩
      else if n = 0xed then some ⟨2, 0x80, 0x9f, 13⟩
      else if 0xe1 ≤ n ∧ n ≤ 0xef then some ⟨2, 0x80, 0xbf, n - 0xe0⟩
      else if n = 0xf0 then some ⟨3, 0x90, 0xbf, 0⟩
      else if 0xf1 ≤ n ∧ n ≤ 0xf3 then some ⟨3, 0x80, 0xbf, n - 0xf0⟩
      else if n = 0xf4 then some ⟨3, 0x80, 0x8f, 4⟩
      else none := by
  have hn : (UInt8.ofNat n).toNat = n := toNat_ofNat h
  simp [lead?, UInt8.le_iff_toNat_le, ← UInt8.toNat_inj, hn]

/-- A byte within the bounds gives six bits more. -/
theorem following_cons {low high : UInt8} {d : Nat} (hd : d < 256) (hlow : low.toNat ≤ d)
    (hhigh : d ≤ high.toNat) (n bits : Nat) (rest : Bytes) :
    following (n + 1) low high bits (UInt8.ofNat d :: rest) =
      following n 0x80 0xbf (bits * 64 + (d - 0x80)) rest := by
  have hn : (UInt8.ofNat d).toNat = d := toNat_ofNat hd
  have hbounds : (low ≤ UInt8.ofNat d && UInt8.ofNat d ≤ high) = true := by
    simp [UInt8.le_iff_toNat_le, hn, hlow, hhigh]
  rw [following, if_pos hbounds, hn]

/-- The character that starts with a byte from 0x80 up, when the bytes after it fit. -/
theorem next_of_lead {n : Nat} (hn : 0x80 ≤ n) (h : n < 256) {lead : Lead}
    (hlead : lead? (UInt8.ofNat n) = some lead) {code : Nat} {bytes rest : Bytes}
    (hcode : following lead.following lead.low lead.high lead.bits bytes = (some code, rest)) :
    next (UInt8.ofNat n) bytes = (some (Char.ofNat code), rest) := by
  have hn' : ¬UInt8.ofNat n < 0x80 := by
    rw [UInt8.lt_iff_toNat_lt, toNat_ofNat h]
    exact Nat.not_lt.2 hn
  rw [next, if_neg hn', hlead]
  simp [hcode]

/-- The last byte of a character gives its code point. -/
theorem following_last {low high : UInt8} {d bits v : Nat} (hd : d < 256) (hlow : low.toNat ≤ d)
    (hhigh : d ≤ high.toNat) (hv : bits * 64 + (d - 0x80) = v) (rest : Bytes) :
    following 1 low high bits (UInt8.ofNat d :: rest) = (some v, rest) := by
  rw [following_cons hd hlow hhigh, hv]
  rfl

theorem tail_bounds (v : Nat) :
    v % 64 + 128 < 256 ∧ (0x80 : UInt8).toNat ≤ v % 64 + 128 ∧
      v % 64 + 128 ≤ (0xbf : UInt8).toNat := by
  have hlow : (0x80 : UInt8).toNat = 128 := rfl
  have hhigh : (0xbf : UInt8).toNat = 191 := rfl
  rw [hlow, hhigh]
  omega

/-- The leading byte of three announces two that the code point passes. -/
theorem lead?_three {v : Nat} (h : 0x7ff < v) (h' : v ≤ 0xffff) (hv : v < 0xd800 ∨ 0xdfff < v) :
    ∃ low high, lead? (UInt8.ofNat (v / 4096 % 16 + 224)) = some ⟨2, low, high, v / 4096⟩ ∧
      low.toNat ≤ v / 64 % 64 + 128 ∧ v / 64 % 64 + 128 ≤ high.toNat := by
  by_cases h0 : v / 4096 = 0
  · -- Below 0x800 two bytes would have done.
    rw [h0]
    refine ⟨0xa0, 0xbf, rfl, ?_, (tail_bounds (v / 64)).2.2⟩
    show 160 ≤ _
    omega
  · by_cases h13 : v / 4096 = 13
    · -- From 0xd800 on there are surrogates.
      rw [h13]
      refine ⟨0x80, 0x9f, rfl, (tail_bounds (v / 64)).2.1, ?_⟩
      show _ ≤ 159
      omega
    · refine ⟨0x80, 0xbf, ?_, (tail_bounds (v / 64)).2⟩
      have hbits : v / 4096 % 16 + 224 - 0xe0 = v / 4096 := by omega
      rw [lead?_ofNat (by omega), if_neg (by omega), if_neg (by omega), if_neg (by omega),
        if_pos (by omega), hbits]

/-- The leading byte of four announces three that the code point passes. -/
theorem lead?_four {v : Nat} (h : 0xffff < v) (h' : v < 0x110000) :
    ∃ low high, lead? (UInt8.ofNat (v / 262144 % 8 + 240)) = some ⟨3, low, high, v / 262144⟩ ∧
      low.toNat ≤ v / 4096 % 64 + 128 ∧ v / 4096 % 64 + 128 ≤ high.toNat := by
  by_cases h0 : v / 262144 = 0
  · -- Below 0x10000 three bytes would have done.
    rw [h0]
    refine ⟨0x90, 0xbf, rfl, ?_, (tail_bounds (v / 4096)).2.2⟩
    show 144 ≤ _
    omega
  · by_cases h4 : v / 262144 = 4
    · -- Nothing lies above 0x10ffff.
      rw [h4]
      refine ⟨0x80, 0x8f, rfl, (tail_bounds (v / 4096)).2.1, ?_⟩
      show _ ≤ 143
      omega
    · refine ⟨0x80, 0xbf, ?_, (tail_bounds (v / 4096)).2⟩
      have hbits : v / 262144 % 8 + 240 - 0xf0 = v / 262144 := by omega
      rw [lead?_ofNat (by omega), if_neg (by omega), if_neg (by omega), if_neg (by omega),
        if_neg (by omega), if_neg (by omega), if_pos (by omega), hbits]

theorem next_two {v : Nat} (h : 0x7f < v) (h' : v ≤ 0x7ff) (rest : Bytes) :
    next (UInt8.ofNat (v / 64 % 32 + 192)) (UInt8.ofNat (v % 64 + 128) :: rest) =
      (some (Char.ofNat v), rest) := by
  obtain ⟨hd, hlow, hhigh⟩ := tail_bounds v
  have hlead := lead?_ofNat (n := v / 64 % 32 + 192) (by omega)
  rw [if_pos (by omega)] at hlead
  exact next_of_lead (by omega) (by omega) hlead
    (following_last hd hlow hhigh (by dsimp only; omega) rest)

theorem next_three {v : Nat} (h : 0x7ff < v) (h' : v ≤ 0xffff) (hv : v < 0xd800 ∨ 0xdfff < v)
    (rest : Bytes) :
    next (UInt8.ofNat (v / 4096 % 16 + 224))
        (UInt8.ofNat (v / 64 % 64 + 128) :: UInt8.ofNat (v % 64 + 128) :: rest) =
      (some (Char.ofNat v), rest) := by
  obtain ⟨hd, hlow, hhigh⟩ := tail_bounds v
  obtain ⟨low, high, hlead, hlow', hhigh'⟩ := lead?_three h h' hv
  refine next_of_lead (by omega) (by omega) hlead ?_
  dsimp only
  rw [following_cons (by omega) hlow' hhigh']
  exact following_last hd hlow hhigh (by omega) rest

theorem next_four {v : Nat} (h : 0xffff < v) (h' : v < 0x110000) (rest : Bytes) :
    next (UInt8.ofNat (v / 262144 % 8 + 240))
        (UInt8.ofNat (v / 4096 % 64 + 128) :: UInt8.ofNat (v / 64 % 64 + 128) ::
          UInt8.ofNat (v % 64 + 128) :: rest) =
      (some (Char.ofNat v), rest) := by
  obtain ⟨hd, hlow, hhigh⟩ := tail_bounds v
  obtain ⟨hd', hlow', hhigh'⟩ := tail_bounds (v / 64)
  obtain ⟨low, high, hlead, hlow'', hhigh''⟩ := lead?_four h h'
  refine next_of_lead (by omega) (by omega) hlead ?_
  dsimp only
  rw [following_cons (by omega) hlow'' hhigh'', following_cons hd' hlow' hhigh']
  exact following_last hd hlow hhigh (by omega) rest

/-- A character is read back, whatever comes after it. -/
theorem next_utf8EncodeChar (c : Char) (rest : Bytes) :
    ∃ b more, String.utf8EncodeChar c = b :: more ∧ next b (more ++ rest) = (some c, rest) := by
  have hvalid : c.val.toNat < 0xd800 ∨ 0xdfff < c.val.toNat ∧ c.val.toNat < 0x110000 := c.valid
  have hc : Char.ofNat c.val.toNat = c := Char.ofNat_toNat c
  unfold String.utf8EncodeChar
  -- One to four bytes, by the size of the code point.
  generalize c.val.toNat = v at hvalid hc
  dsimp only
  by_cases h1 : v ≤ 0x7f
  · refine ⟨_, _, if_pos h1, ?_⟩
    have hv : (UInt8.ofNat v).toNat = v := toNat_ofNat (by omega)
    have hlt : UInt8.ofNat v < 0x80 := by
      rw [UInt8.lt_iff_toNat_lt, hv]
      exact Nat.lt_succ_of_le h1
    rw [next, if_pos hlt, hv, hc]
    rfl
  · rw [if_neg h1]
    by_cases h2 : v ≤ 0x7ff
    · exact ⟨_, _, if_pos h2, hc ▸ next_two (by omega) h2 rest⟩
    · rw [if_neg h2]
      by_cases h3 : v ≤ 0xffff
      · exact ⟨_, _, if_pos h3, hc ▸ next_three (by omega) h3 (by omega) rest⟩
      · exact ⟨_, _, if_neg h3, hc ▸ next_four (by omega) (by omega) rest⟩

/-! ## Whole texts -/

/-- The units that come before others do not matter to them. -/
theorem unitsOnto_append (read earlier : List (Option Char)) (bytes : Bytes) :
    unitsOnto (read ++ earlier) bytes = earlier.reverse ++ unitsOnto read bytes := by
  induction read, bytes using unitsOnto.induct with
  | case1 read => rw [unitsOnto, unitsOnto, List.reverse_append]
  | case2 read b rest ih =>
    rw [unitsOnto, unitsOnto]
    exact ih

theorem units_cons (b : UInt8) (rest : Bytes) :
    units (b :: rest) = (next b rest).1 :: units (next b rest).2 := by
  rw [units, unitsOnto]
  exact unitsOnto_append [] [(next b rest).1] _

/-- **Round trip**: a text is read back as it was written. -/
theorem units_encode (text : List Char) : units (encode text) = text.map some := by
  induction text with
  | nil => rw [encode, List.flatMap_nil, units, unitsOnto]; rfl
  | cons c text ih =>
    obtain ⟨b, more, hc, hnext⟩ := next_utf8EncodeChar c (encode text)
    have hencode : encode (c :: text) = b :: (more ++ encode text) := by
      rw [encode, List.flatMap_cons, hc]
      rfl
    rw [hencode, units_cons, hnext, ih]
    rfl

theorem decodeLossy_encode (text : List Char) : decodeLossy (encode text) = text := by
  rw [decodeLossy, units_encode, List.map_map]
  exact (List.map_congr_left fun c _ => rfl).trans (List.map_id text)

theorem ofString_append (s t : String) : ofString (s ++ t) = ofString s ++ ofString t := by
  rw [ofString, String.toList_append, encode, List.flatMap_append]
  rfl

theorem toStringLossy_ofString (s : String) : toStringLossy (ofString s) = s := by
  rw [toStringLossy, ofString, decodeLossy_encode]
  exact String.ofList_toList

theorem toString?_ofString (s : String) : toString? (ofString s) = some s := by
  have hall : (s.toList.map some).all Option.isSome = true := by simp
  rw [toString?, decode?, ofString, units_encode]
  simp only [hall, if_true, List.filterMap_map, Option.map_some]
  rw [Function.id_comp, List.filterMap_some, String.ofList_toList]

/-- A byte from ASCII is the encoding of the character with its number. -/
theorem utf8EncodeChar_ofNat {b : UInt8} (hb : b < 0x80) :
    String.utf8EncodeChar (Char.ofNat b.toNat) = [b] := by
  have hlt : b.toNat < 128 := UInt8.lt_iff_toNat_lt.1 hb
  have hval : (Char.ofNat b.toNat).val.toNat = b.toNat := by
    have hvalid : b.toNat.isValidChar := .inl (by omega)
    rw [Char.ofNat, dif_pos hvalid]
    rfl
  unfold String.utf8EncodeChar
  simp only [hval]
  rw [if_pos (by omega), UInt8.ofNat_toNat]

/-- Bytes from ASCII are a text. -/
theorem ofString_toStringLossy {bytes : Bytes} (h : ∀ b ∈ bytes, b < 0x80) :
    ofString (toStringLossy bytes) = bytes := by
  -- They are the encoding of the characters with their numbers.
  have hencode : bytes = ofString (String.ofList (bytes.map fun b => Char.ofNat b.toNat)) := by
    rw [ofString, String.toList_ofList, encode, List.flatMap_map]
    induction bytes with
    | nil => rfl
    | cons b bytes ih =>
      obtain ⟨hb, hbytes⟩ := List.forall_mem_cons.1 h
      rw [List.flatMap_cons, utf8EncodeChar_ofNat hb, ← ih hbytes]
      rfl
  rw [hencode, toStringLossy_ofString]

end SqlTokens.Utf8
