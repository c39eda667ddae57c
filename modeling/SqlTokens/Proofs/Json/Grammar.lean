import SqlTokens.Json

/-! # How a JSON document is read

    The grammar of JSON, with what each part of a document means.  It reads the forms of
    the values that the program has: `null`, natural numbers, strings, arrays and objects.
    A character of a string may be written as itself or escaped, white space may stand
    between all parts, and a number goes on for as long as it can.

    A part is related to the text before it and the text behind it, so that what is read
    is said without saying how.  There is one way to read a text
    (`Json.Reads.unique`, `Json.IsDocument.unique`). -/

namespace SqlTokens.Json

open Text (hexValue?)

/-! ## White space -/

/-- White space between the parts of a document. -/
def isSpace (c : Char) : Bool :=
  c == ' ' || c == '\t' || c == '\n' || c == '\r'

/-- A text without the white space at its head. -/
def skipSpace (s : List Char) : List Char :=
  s.dropWhile isSpace

/-! ## Numbers -/

/-- A character with which a number would go on: a digit, a fraction or an exponent. -/
def continuesNumber (c : Char) : Bool :=
  c.isDigit || c == '.' || c == 'e' || c == 'E'

/-- Decimal digits without a superfluous zero at their head, and their value. -/
structure IsNumeral (ds : List Char) (n : Nat) : Prop where
  ne_nil : ds ≠ []
  isDigit : ∀ d ∈ ds, d.isDigit = true
  isShortest : ds.head? = some '0' → ds = ['0']
  value : Nat.ofDigitChars 10 ds 0 = n

/-! ## Strings -/

/-- The character that a letter stands for behind a backslash. -/
def escape? : Char → Option Char
  | '"' => some '"'
  | '\\' => some '\\'
  | '/' => some '/'
  | 'b' => some '\x08'
  | 'f' => some '\x0c'
  | 'n' => some '\n'
  | 'r' => some '\r'
  | 't' => some '\t'
  | _ => none

/-- Four digits of radix sixteen that have the value `n`. -/
structure IsHexQuad (a b c d : Char) (n : Nat) : Prop where
  value : ∃ i j k l, hexValue? a = some i ∧ hexValue? b = some j ∧ hexValue? c = some k ∧
    hexValue? d = some l ∧ n = 0x1000 * i + 0x100 * j + 0x10 * k + l

/-- The character that two surrogates stand for. -/
def ofSurrogates (high low : Nat) : Char :=
  Char.ofNat (0x10000 + 0x400 * (high - 0xd800) + (low - 0xdc00))

/-- Behind its opening quote, a string is read to its closing quote: the text before, the
    characters of the string, the text behind. -/
inductive ReadsString : List Char → List Char → List Char → Prop where
  | close {rest : List Char} : ReadsString ('"' :: rest) [] rest
  | plain {c : Char} {s text rest : List Char} (hc : ' ' ≤ c ∧ c ≠ '"' ∧ c ≠ '\\')
      (h : ReadsString s text rest) : ReadsString (c :: s) (c :: text) rest
  | escaped {e c : Char} {s text rest : List Char} (he : escape? e = some c)
      (h : ReadsString s text rest) : ReadsString ('\\' :: e :: s) (c :: text) rest
  | codePoint {x₁ x₂ x₃ x₄ : Char} {n : Nat} {s text rest : List Char}
      (hn : IsHexQuad x₁ x₂ x₃ x₄ n) (hchar : n.isValidChar) (h : ReadsString s text rest) :
      ReadsString ('\\' :: 'u' :: x₁ :: x₂ :: x₃ :: x₄ :: s) (Char.ofNat n :: text) rest
  | surrogates {x₁ x₂ x₃ x₄ y₁ y₂ y₃ y₄ : Char} {high low : Nat} {s text rest : List Char}
      (hhigh : IsHexQuad x₁ x₂ x₃ x₄ high) (hleft : 0xd800 ≤ high ∧ high < 0xdc00)
      (hlow : IsHexQuad y₁ y₂ y₃ y₄ low) (hright : 0xdc00 ≤ low ∧ low < 0xe000)
      (h : ReadsString s text rest) :
      ReadsString ('\\' :: 'u' :: x₁ :: x₂ :: x₃ :: x₄ :: '\\' :: 'u' :: y₁ :: y₂ :: y₃ :: y₄ :: s)
        (ofSurrogates high low :: text) rest

/-! ## Values -/

/-- What a part of a document means. -/
inductive Phrase where
  | value (v : Json)
  /-- A field of an object: its name and its value. -/
  | field (f : String × Json)
  /-- The items of an array that has some, and its closing bracket. -/
  | items (vs : List Json)
  /-- The fields of an object that has some, and its closing bracket. -/
  | fields (fs : List (String × Json))

/-- A part of a document is read: the text before it, what it means, the text behind it. -/
inductive Reads : List Char → Phrase → List Char → Prop where
  | null {rest : List Char} : Reads ('n' :: 'u' :: 'l' :: 'l' :: rest) (.value .null) rest
  | number {s ds rest : List Char} {n : Nat} (hs : s = ds ++ rest) (hds : IsNumeral ds n)
      (hrest : rest.head?.any continuesNumber = false) : Reads s (.value (.number n)) rest
  | string {s text rest : List Char} (h : ReadsString s text rest) :
      Reads ('"' :: s) (.value (.string (String.ofList text))) rest
  | emptyArray {s rest : List Char} (hs : skipSpace s = ']' :: rest) :
      Reads ('[' :: s) (.value (.array [])) rest
  | array {s rest : List Char} {vs : List Json} (h : Reads (skipSpace s) (.items vs) rest) :
      Reads ('[' :: s) (.value (.array vs)) rest
  | emptyObject {s rest : List Char} (hs : skipSpace s = '\x7d' :: rest) :
      Reads ('\x7b' :: s) (.value (.object [])) rest
  | object {s rest : List Char} {fs : List (String × Json)}
      (h : Reads (skipSpace s) (.fields fs) rest) : Reads ('\x7b' :: s) (.value (.object fs)) rest
  | field {s text s₁ s₂ rest : List Char} {v : Json} (hname : ReadsString s text s₁)
      (hcolon : skipSpace s₁ = ':' :: s₂) (hv : Reads (skipSpace s₂) (.value v) rest) :
      Reads ('"' :: s) (.field (String.ofList text, v)) rest
  | lastItem {s s' rest : List Char} {v : Json} (hv : Reads s (.value v) s')
      (hclose : skipSpace s' = ']' :: rest) : Reads s (.items [v]) rest
  | item {s s₁ s₂ rest : List Char} {v : Json} {vs : List Json} (hv : Reads s (.value v) s₁)
      (hcomma : skipSpace s₁ = ',' :: s₂) (hvs : Reads (skipSpace s₂) (.items vs) rest) :
      Reads s (.items (v :: vs)) rest
  | lastField {s s' rest : List Char} {f : String × Json} (hf : Reads s (.field f) s')
      (hclose : skipSpace s' = '\x7d' :: rest) : Reads s (.fields [f]) rest
  | moreFields {s s₁ s₂ rest : List Char} {f : String × Json} {fs : List (String × Json)}
      (hf : Reads s (.field f) s₁) (hcomma : skipSpace s₁ = ',' :: s₂)
      (hfs : Reads (skipSpace s₂) (.fields fs) rest) : Reads s (.fields (f :: fs)) rest

/-- A document that means `v`: there is nothing in it but the value and white space. -/
def IsDocument (text : String) (v : Json) : Prop :=
  ∃ rest, Reads (skipSpace text.toList) (.value v) rest ∧ skipSpace rest = []

/-! ## One reading -/

/-- The digits of a numeral are all the digits at the head of the text. -/
theorem IsNumeral.takeWhile_eq {ds rest : List Char} {n : Nat} (h : IsNumeral ds n)
    (hrest : rest.head?.any continuesNumber = false) :
    (ds ++ rest).takeWhile Char.isDigit = ds := by
  have hnone : rest.takeWhile Char.isDigit = [] := by
    cases rest with
    | nil => rfl
    | cons c rest =>
      have hc : c.isDigit = false := by
        simp only [List.head?_cons, Option.any_some, continuesNumber, Bool.or_eq_false_iff] at hrest
        exact hrest.1.1.1
      exact List.takeWhile_cons_of_neg (Bool.eq_false_iff.1 hc)
  rw [List.takeWhile_append_of_pos h.isDigit, hnone, List.append_nil]

theorem IsNumeral.unique {ds ds' rest rest' : List Char} {n n' : Nat} (h : IsNumeral ds n)
    (h' : IsNumeral ds' n') (hs : ds ++ rest = ds' ++ rest')
    (hrest : rest.head?.any continuesNumber = false)
    (hrest' : rest'.head?.any continuesNumber = false) : n' = n ∧ rest' = rest := by
  have hdigits := h.takeWhile_eq hrest
  rw [hs, h'.takeWhile_eq hrest'] at hdigits
  subst hdigits
  exact ⟨h'.value.symm.trans h.value, (List.append_cancel_left hs).symm⟩

theorem IsHexQuad.unique {a b c d : Char} {n n' : Nat} (h : IsHexQuad a b c d n)
    (h' : IsHexQuad a b c d n') : n' = n := by
  obtain ⟨i, j, k, l, hi, hj, hk, hl, rfl⟩ := h.value
  obtain ⟨i', j', k', l', hi', hj', hk', hl', rfl⟩ := h'.value
  cases hi.symm.trans hi'
  cases hj.symm.trans hj'
  cases hk.symm.trans hk'
  cases hl.symm.trans hl'
  rfl

/-- No surrogate is a character by itself. -/
theorem not_isValidChar_of_surrogate {n : Nat} (h : 0xd800 ≤ n ∧ n < 0xe000) :
    ¬n.isValidChar := by
  intro hchar
  rcases hchar with hlow | ⟨hhigh, -⟩
  · omega
  · omega

theorem ReadsString.unique {s text rest text' rest' : List Char} (h : ReadsString s text rest)
    (h' : ReadsString s text' rest') : text' = text ∧ rest' = rest := by
  -- By induction on one reading: the head of the text decides about the other.
  induction h generalizing text' with
  | close =>
    cases h' with
    | close => exact ⟨rfl, rfl⟩
    | plain hc => exact absurd rfl hc.2.1
  | plain hc _ ih =>
    cases h' with
    | close => exact absurd rfl hc.2.1
    | plain _ h' =>
      obtain ⟨rfl, rfl⟩ := ih h'
      exact ⟨rfl, rfl⟩
    | escaped => exact absurd rfl hc.2.2
    | codePoint => exact absurd rfl hc.2.2
    | surrogates => exact absurd rfl hc.2.2
  | escaped he _ ih =>
    cases h' with
    | plain hc => exact absurd rfl hc.2.2
    | escaped he' h' =>
      cases he.symm.trans he'
      obtain ⟨rfl, rfl⟩ := ih h'
      exact ⟨rfl, rfl⟩
    | codePoint => cases he
    | surrogates => cases he
  | codePoint hn hchar _ ih =>
    cases h' with
    | plain hc => exact absurd rfl hc.2.2
    | escaped he => cases he
    | codePoint hn' _ h' =>
      cases hn.unique hn'
      obtain ⟨rfl, rfl⟩ := ih h'
      exact ⟨rfl, rfl⟩
    | surrogates hhigh hleft =>
      cases hn.unique hhigh
      exact absurd hchar (not_isValidChar_of_surrogate ⟨hleft.1, by omega⟩)
  | surrogates hhigh hleft hlow _ _ ih =>
    cases h' with
    | plain hc => exact absurd rfl hc.2.2
    | escaped he => cases he
    | codePoint hn hchar =>
      cases hn.unique hhigh
      exact absurd hchar (not_isValidChar_of_surrogate ⟨hleft.1, by omega⟩)
    | surrogates hhigh' _ hlow' _ h' =>
      cases hhigh.unique hhigh'
      cases hlow.unique hlow'
      obtain ⟨rfl, rfl⟩ := ih h'
      exact ⟨rfl, rfl⟩

/-! ### Values -/

/-- A numeral starts with a digit. -/
theorem IsNumeral.ne_cons {ds rest s : List Char} {c : Char} {n : Nat} (h : IsNumeral ds n)
    (hc : c.isDigit = false) : c :: s ≠ ds ++ rest := by
  intro hs
  obtain ⟨d, ds, rfl⟩ := List.exists_cons_of_ne_nil h.ne_nil
  cases hs
  rw [h.isDigit c List.mem_cons_self] at hc
  cases hc

theorem marks_of_isDigit {c : Char} (h : c.isDigit = true) :
    isSpace c = false ∧ c ≠ ']' ∧ c ≠ '\x7d' := by
  refine ⟨?_, ?_, ?_⟩
  · rw [Bool.eq_false_iff]
    intro hspace
    simp only [isSpace, Bool.or_eq_true, beq_iff_eq] at hspace
    rcases hspace with ((rfl | rfl) | rfl) | rfl <;> cases h
  · rintro rfl
    cases h
  · rintro rfl
    cases h

/-- Whatever is read starts with a character of its own: with no space and no closing
    bracket. -/
theorem Reads.head {s rest : List Char} {p : Phrase} (h : Reads s p rest) :
    ∃ c s', s = c :: s' ∧ isSpace c = false ∧ c ≠ ']' ∧ c ≠ '\x7d' := by
  induction h with
  | null => exact ⟨_, _, rfl, by decide⟩
  | number hs hds =>
    rename_i ds _ _
    obtain ⟨d, ds, rfl⟩ := List.exists_cons_of_ne_nil hds.ne_nil
    exact ⟨d, _, hs, marks_of_isDigit (hds.isDigit d List.mem_cons_self)⟩
  | string => exact ⟨_, _, rfl, by decide⟩
  | emptyArray => exact ⟨_, _, rfl, by decide⟩
  | array => exact ⟨_, _, rfl, by decide⟩
  | emptyObject => exact ⟨_, _, rfl, by decide⟩
  | object => exact ⟨_, _, rfl, by decide⟩
  | field => exact ⟨_, _, rfl, by decide⟩
  | lastItem _ _ ih => exact ih
  | item _ _ _ ih => exact ih
  | lastField _ _ ih => exact ih
  | moreFields _ _ _ ih => exact ih

theorem Reads.skipSpace_eq {s rest : List Char} {p : Phrase} (h : Reads s p rest) :
    skipSpace s = s := by
  obtain ⟨c, s', rfl, hc, -⟩ := h.head
  exact List.dropWhile_cons_of_neg (Bool.eq_false_iff.1 hc)

theorem Reads.ne_closing {c : Char} {s rest : List Char} {p : Phrase} (h : Reads (c :: s) p rest) :
    c ≠ ']' ∧ c ≠ '\x7d' := by
  obtain ⟨c', s', hs, -, hc⟩ := h.head
  cases hs
  exact hc

/-! The first character of a value says of what form it is. -/

theorem Reads.of_numeral {s ds rest rest' : List Char} {n : Nat} {v : Json}
    (h : Reads s (.value v) rest') (hs : s = ds ++ rest) (hds : IsNumeral ds n)
    (hrest : rest.head?.any continuesNumber = false) : v = .number n ∧ rest' = rest := by
  cases h with
  | number hs' hds' hrest' =>
    obtain ⟨rfl, rfl⟩ := hds.unique hds' (hs.symm.trans hs') hrest hrest'
    exact ⟨rfl, rfl⟩
  | null => exact absurd hs (hds.ne_cons rfl)
  | string => exact absurd hs (hds.ne_cons rfl)
  | emptyArray => exact absurd hs (hds.ne_cons rfl)
  | array => exact absurd hs (hds.ne_cons rfl)
  | emptyObject => exact absurd hs (hds.ne_cons rfl)
  | object => exact absurd hs (hds.ne_cons rfl)

theorem Reads.of_quote {s rest : List Char} {v : Json} (h : Reads ('"' :: s) (.value v) rest) :
    ∃ text, ReadsString s text rest ∧ v = .string (String.ofList text) := by
  cases h with
  | number hs hds => exact absurd hs (hds.ne_cons rfl)
  | string h => exact ⟨_, h, rfl⟩

/-- An array that is opened has no items, and is closed, or it has some. -/
theorem Reads.of_bracket {s rest : List Char} {v : Json} (h : Reads ('[' :: s) (.value v) rest) :
    (skipSpace s = ']' :: rest ∧ v = .array []) ∨
      ∃ vs, Reads (skipSpace s) (.items vs) rest ∧ v = .array vs := by
  cases h with
  | number hs hds => exact absurd hs (hds.ne_cons rfl)
  | emptyArray hs => exact .inl ⟨hs, rfl⟩
  | array h => exact .inr ⟨_, h, rfl⟩

theorem Reads.of_brace {s rest : List Char} {v : Json} (h : Reads ('\x7b' :: s) (.value v) rest) :
    (skipSpace s = '\x7d' :: rest ∧ v = .object []) ∨
      ∃ fs, Reads (skipSpace s) (.fields fs) rest ∧ v = .object fs := by
  cases h with
  | number hs hds => exact absurd hs (hds.ne_cons rfl)
  | emptyObject hs => exact .inl ⟨hs, rfl⟩
  | object h => exact .inr ⟨_, h, rfl⟩

/-- Two phrases that are asked for at the same place of a document. -/
inductive Phrase.Like : Phrase → Phrase → Prop where
  | value (v v' : Json) : Like (.value v) (.value v')
  | field (f f' : String × Json) : Like (.field f) (.field f')
  | items (vs vs' : List Json) : Like (.items vs) (.items vs')
  | fields (fs fs' : List (String × Json)) : Like (.fields fs) (.fields fs')

/-- **One reading**: a text says what is read of it, and where that ends. -/
theorem Reads.unique {s rest rest' : List Char} {p p' : Phrase} (h : Reads s p rest)
    (h' : Reads s p' rest') (hlike : p.Like p') : p' = p ∧ rest' = rest := by
  -- By induction on one reading.  The other is of the same form, by the first character or
  -- by the one that comes behind the first part.
  induction h generalizing p' rest' with
  | null =>
    cases hlike
    cases h' with
    | null => exact ⟨rfl, rfl⟩
    | number hs hds => exact absurd hs (hds.ne_cons rfl)
  | number hs hds hrest =>
    cases hlike
    obtain ⟨rfl, rfl⟩ := h'.of_numeral hs hds hrest
    exact ⟨rfl, rfl⟩
  | string h =>
    cases hlike
    obtain ⟨text, htext, rfl⟩ := h'.of_quote
    obtain ⟨rfl, rfl⟩ := h.unique htext
    exact ⟨rfl, rfl⟩
  | emptyArray hs =>
    cases hlike
    rcases h'.of_bracket with ⟨hs', rfl⟩ | ⟨vs, hvs, -⟩
    · cases hs.symm.trans hs'
      exact ⟨rfl, rfl⟩
    · rw [hs] at hvs
      exact absurd rfl hvs.ne_closing.1
  | array h ih =>
    cases hlike
    rcases h'.of_bracket with ⟨hs, -⟩ | ⟨vs, hvs, rfl⟩
    · rw [hs] at h
      exact absurd rfl h.ne_closing.1
    · obtain ⟨heq, rfl⟩ := ih hvs (.items _ _)
      cases heq
      exact ⟨rfl, rfl⟩
  | emptyObject hs =>
    cases hlike
    rcases h'.of_brace with ⟨hs', rfl⟩ | ⟨fs, hfs, -⟩
    · cases hs.symm.trans hs'
      exact ⟨rfl, rfl⟩
    · rw [hs] at hfs
      exact absurd rfl hfs.ne_closing.2
  | object h ih =>
    cases hlike
    rcases h'.of_brace with ⟨hs, -⟩ | ⟨fs, hfs, rfl⟩
    · rw [hs] at h
      exact absurd rfl h.ne_closing.2
    · obtain ⟨heq, rfl⟩ := ih hfs (.fields _ _)
      cases heq
      exact ⟨rfl, rfl⟩
  | field hname hcolon _ ih =>
    cases hlike
    cases h' with
    | field hname' hcolon' hv' =>
      obtain ⟨rfl, rfl⟩ := hname.unique hname'
      cases hcolon.symm.trans hcolon'
      obtain ⟨hv, rfl⟩ := ih hv' (.value _ _)
      cases hv
      exact ⟨rfl, rfl⟩
  | lastItem _ hclose ih =>
    cases hlike
    cases h' with
    | lastItem hv' hclose' =>
      obtain ⟨hv, rfl⟩ := ih hv' (.value _ _)
      cases hv
      cases hclose.symm.trans hclose'
      exact ⟨rfl, rfl⟩
    | item hv' hcomma =>
      obtain ⟨-, rfl⟩ := ih hv' (.value _ _)
      cases hclose.symm.trans hcomma
  | item _ hcomma _ ih ih' =>
    cases hlike
    cases h' with
    | lastItem hv' hclose =>
      obtain ⟨-, rfl⟩ := ih hv' (.value _ _)
      cases hclose.symm.trans hcomma
    | item hv' hcomma' hvs' =>
      obtain ⟨hv, rfl⟩ := ih hv' (.value _ _)
      cases hv
      cases hcomma.symm.trans hcomma'
      obtain ⟨hvs, rfl⟩ := ih' hvs' (.items _ _)
      cases hvs
      exact ⟨rfl, rfl⟩
  | lastField _ hclose ih =>
    cases hlike
    cases h' with
    | lastField hf' hclose' =>
      obtain ⟨hf, rfl⟩ := ih hf' (.field _ _)
      cases hf
      cases hclose.symm.trans hclose'
      exact ⟨rfl, rfl⟩
    | moreFields hf' hcomma =>
      obtain ⟨-, rfl⟩ := ih hf' (.field _ _)
      cases hclose.symm.trans hcomma
  | moreFields _ hcomma _ ih ih' =>
    cases hlike
    cases h' with
    | lastField hf' hclose =>
      obtain ⟨-, rfl⟩ := ih hf' (.field _ _)
      cases hclose.symm.trans hcomma
    | moreFields hf' hcomma' hfs' =>
      obtain ⟨hf, rfl⟩ := ih hf' (.field _ _)
      cases hf
      cases hcomma.symm.trans hcomma'
      obtain ⟨hfs, rfl⟩ := ih' hfs' (.fields _ _)
      cases hfs
      exact ⟨rfl, rfl⟩

theorem IsDocument.unique {text : String} {v v' : Json} (h : IsDocument text v)
    (h' : IsDocument text v') : v' = v := by
  obtain ⟨rest, hreads, -⟩ := h
  obtain ⟨rest', hreads', -⟩ := h'
  cases (hreads.unique hreads' (.value v v')).1
  rfl

end SqlTokens.Json
