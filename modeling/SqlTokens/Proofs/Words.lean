import Mathlib.Data.List.Nodup
import SqlTokens.Proofs.Numbers
import SqlTokens.Proofs.Replacement
import SqlTokens.Proofs.Spelling
import SqlTokens.Proofs.Utf8

/-! # Words and named placeholders

    A word is the longest run of letters and digits behind a letter, and a named
    placeholder is a colon with the longest run of letters, digits and dots behind it.
    Which word is reserved only depends on its lower-case form, and that form is the
    spelling of one reserved word at the most.

    * **Reserved words**: `Keyword.ofSpelling?_eq_some_iff` — the table finds each of them
      under its spelling, and nothing under anything else.
    * **Rules**: `Lexeme.word_append`, `Lexeme.named_append` — what is read of a run.
    * **Scanning**: `Lexer.scan_word`. -/

namespace SqlTokens

open Utf8 (ofString)

/-! ## Reserved words -/

theorem Utf8.ofString_injective : Function.Injective ofString :=
  Function.LeftInverse.injective Utf8.toStringLossy_ofString

namespace Keyword

/-- Every reserved word is listed, in the order in which they are declared. -/
theorem mem_all (k : Keyword) : k ∈ all := by
  have hplace : all[k.ctorIdx]? = some k := by cases k <;> rfl
  exact List.mem_of_getElem? hplace

theorem nodup_spellings : (all.map spelling).Nodup := by decide +kernel

/-- No two reserved words are spelled alike. -/
theorem bytes_injective : Function.Injective bytes := by
  intro k k' h
  have hspelling : k.spelling = k'.spelling := Utf8.ofString_injective h
  exact List.inj_on_of_nodup_map nodup_spellings (mem_all k) (mem_all k') hspelling

/-- **Reserved words**: what is found in the table is the word that is spelled so. -/
theorem ofSpelling?_eq_some_iff {word : Bytes} {k : Keyword} :
    ofSpelling? word = some k ↔ word = k.bytes := by
  constructor
  · intro h
    exact (Lexeme.bytes_of_ofSpelling? h).symm
  · rintro rfl
    cases hfound : ofSpelling? k.bytes with
    | some k' => rw [bytes_injective (Lexeme.bytes_of_ofSpelling? hfound)]
    | none =>
      -- The search cannot pass over the entry of the word itself.
      have hentry : (k.bytes, k) ∈ table := List.mem_map_of_mem (mem_all k)
      have hnone := List.find?_eq_none.1 (Option.map_eq_none_iff.1 hfound) _ hentry
      exact absurd (beq_self_eq_true k.bytes) hnone

end Keyword

/-! ## Rules -/

namespace Lexeme

/-- The word that a run is: the reserved word that its lower-case form spells, or else an
    identifier. -/
theorem word_append {w tail : Bytes} (h : IsRun Byte.isWordByte w tail) :
    (∃ k, (∀ k' : Keyword, k'.bytes = w.map Byte.toLower ↔ k' = k) ∧
      word (w ++ tail) = ⟨.keyword k, w, .text (w.map Byte.toLower)⟩) ∨
    (∀ k : Keyword, k.bytes ≠ w.map Byte.toLower) ∧
      word (w ++ tail) = verbatim .identifier w := by
  have hrun : Span.run Byte.isWordByte (w ++ tail) = w := h.run_eq
  rw [word, hrun]
  cases hfound : Keyword.ofSpelling? (w.map Byte.toLower) with
  | some k =>
    have hk : w.map Byte.toLower = k.bytes := Keyword.ofSpelling?_eq_some_iff.1 hfound
    refine .inl ⟨k, ?_, rfl⟩
    intro k'
    rw [hk]
    exact Keyword.bytes_injective.eq_iff
  | none =>
    refine .inr ⟨?_, rfl⟩
    intro k hk
    rw [Keyword.ofSpelling?_eq_some_iff.2 hk.symm] at hfound
    cases hfound

/-- The placeholder that a run is the name of, which has at least one byte. -/
theorem named_append {n tail : Bytes} (h : IsRun Byte.isNameByte n tail) :
    n ≠ [] ∧ named (n ++ tail) = verbatim .placeholder (Byte.colon :: n) ∨
    n = [] ∧ named (n ++ tail) = verbatim .malformed [Byte.colon] := by
  rw [named, h.run_eq]
  cases n with
  | nil => exact .inr ⟨rfl, rfl⟩
  | cons b n => exact .inl ⟨List.cons_ne_nil b n, rfl⟩

theorem read_letter {b : UInt8} (hb : Byte.isLetter b = true) (s : Bytes) :
    Byte.isBlank b = false ∧ read b s = word (b :: s) := by
  have hopening : Opening.of b = .letter := if_pos hb
  refine ⟨Byte.isSought_isLetter.isBlank hb, ?_⟩
  rw [read, hopening]

end Lexeme

/-! ## Scanning -/

/-- **Words**: the table of reserved words finds each of them under its spelling and
    nothing else.  Where a word starts, the lexer takes the longest run of letters and
    digits: if its lower-case form spells a reserved word, which then is the only one, it
    hands out that word with that form, and else an identifier as it is written.  Where a
    colon stands, it takes the longest run of letters, digits and dots behind it as a name;
    a colon without a name is malformed. -/
theorem Lexer.scan_word :
    (∀ (word : Bytes) (k : Keyword), Keyword.ofSpelling? word = some k ↔ word = k.bytes) ∧
    ∀ {lx : Lexer} {blanks s : Bytes} {b : UInt8}, lx.StandsBefore blanks (b :: s) →
      (Byte.isLetter b = true → ∃ w tail, b :: s = w ++ tail ∧ IsRun Byte.isWordByte w tail ∧
        ((∃ k, (∀ k' : Keyword, k'.bytes = w.map Byte.toLower ↔ k' = k) ∧
            lx.Takes blanks w tail (.keyword k) (w.map Byte.toLower)) ∨
          (∀ k : Keyword, k.bytes ≠ w.map Byte.toLower) ∧
            lx.Takes blanks w tail .identifier w)) ∧
      (b = Byte.colon → ∃ n tail, s = n ++ tail ∧ IsRun Byte.isNameByte n tail ∧
        (n ≠ [] ∧ lx.Takes blanks (b :: n) tail .placeholder (b :: n) ∨
          n = [] ∧ lx.Takes blanks [b] tail .malformed [b])) := by
  refine ⟨fun _ _ => Keyword.ofSpelling?_eq_some_iff, ?_⟩
  intro lx blanks s b h
  constructor
  · intro hb
    obtain ⟨hblank, hread⟩ := Lexeme.read_letter hb s
    obtain ⟨w, tail, hs, hrun⟩ := exists_isRun Byte.isWordByte (b :: s)
    refine ⟨w, tail, hs, hrun, ?_⟩
    rw [hs] at hread
    rcases Lexeme.word_append hrun with ⟨k, hk, hword⟩ | ⟨hfree, hword⟩
    · exact .inl ⟨k, hk, h.takes hblank (hread.trans hword) hs⟩
    · exact .inr ⟨hfree, h.takes hblank (hread.trans hword) hs⟩
  · rintro rfl
    obtain ⟨n, tail, rfl, hrun⟩ := exists_isRun Byte.isNameByte s
    have hread : Lexeme.read Byte.colon (n ++ tail) = Lexeme.named (n ++ tail) := rfl
    refine ⟨n, tail, rfl, hrun, ?_⟩
    rcases Lexeme.named_append hrun with ⟨hne, hnamed⟩ | ⟨rfl, hnamed⟩
    · exact .inl ⟨hne, h.takes rfl (hread.trans hnamed) rfl⟩
    · exact .inr ⟨rfl, h.takes rfl (hread.trans hnamed) rfl⟩

/-- A reserved word in letters of both cases, in front of a byte that ends it. -/
theorem Lexer.scan_word_mixed :
    (start (ofString "\tUTF8mb4.x")).StandsBefore [0x09] (ofString "UTF8mb4.x") ∧
    Byte.isLetter 0x55 = true ∧
    (start (ofString "\tUTF8mb4.x")).Takes [0x09] (ofString "UTF8mb4") (ofString ".x")
      (.keyword .UTF8MB4) (ofString "utf8mb4") := by
  have h : (start (ofString "\tUTF8mb4.x")).StandsBefore [0x09] (ofString "UTF8mb4.x") :=
    standsBefore_start (List.forall_mem_singleton.2 rfl) _
  have hrun : IsRun Byte.isWordByte (ofString "UTF8mb4") (ofString ".x") :=
    ⟨by decide +kernel, rfl⟩
  have hlower : Keyword.UTF8MB4.bytes = (ofString "UTF8mb4").map Byte.toLower := by
    decide +kernel
  obtain ⟨w, tail, hsplit, hrun', hword⟩ := (scan_word.2 h).1 rfl
  obtain ⟨rfl, rfl⟩ := hrun.unique hrun' hsplit
  refine ⟨h, rfl, ?_⟩
  rcases hword with ⟨k, hk, htakes⟩ | ⟨hfree, -⟩
  · -- The word that is handed out is the only one with this spelling.
    obtain rfl := (hk _).1 hlower
    rw [← hlower] at htakes
    exact htakes
  · exact absurd hlower (hfree _)

end SqlTokens
