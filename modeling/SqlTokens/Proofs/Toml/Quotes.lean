import SqlTokens.Toml.Notation
import SqlTokens.Toml.Text

/-! # A text is read as it was written

    Whatever a text is, it is read back from the notation that is chosen for it, in front of
    anything that does not go on with a quote (`Toml.quotedText_writeText`).

    * **Characters**: `escapedOnto_writeChar` — a character is read as it was, whether it is
      escaped or not.
    * **On one line**: `escapedOnto_writeEscaped`, `plain_of_isTextChar`.
    * **Over several lines**: where three quotes stand in a row the text is closed, and up to
      two more behind them belong to it.  So a quote of the text is passed as such if no two
      others follow it (`Writes.ne_closing`), and the quotes at the end of the text are read
      with the closing ones (`IsLastRun`, `ReadsLines.close_replicate`).  That is one argument
      for both kinds of quotes: `Writes.readOnto_eq`. -/

namespace SqlTokens.Toml

open Text (hexDigit hexValue? hexValue?_hexDigit)

/-- What is taken from a text ends where the first character that does not belong to it is. -/
theorem takeWhile_append_eq {p : Char → Bool} {taken rest : List Char}
    (htaken : ∀ c ∈ taken, p c = true) (hrest : ∀ c ∈ rest.head?, p c = false) :
    (taken ++ rest).takeWhile p = taken := by
  have hnone : rest.takeWhile p = [] := by
    cases rest with
    | nil => rfl
    | cons c rest => exact List.takeWhile_cons_of_neg (by simp [hrest c rfl])
  rw [List.takeWhile_append_of_pos htaken, hnone, List.append_nil]

/-! ## Characters -/

theorem isTextChar_of_needsEscape {c : Char} (h : needsEscape c = false) (hline : c ≠ '\n') :
    isTextChar c = true := by
  simp only [needsEscape, isTextChar] at h ⊢
  grind

theorem toNat_lt_of_needsEscape {c : Char} (h : needsEscape c = true) : c.toNat < 256 := by
  have hcontrol : c < ' ' ∨ c = '\x7f' := by
    simp only [needsEscape, Bool.and_eq_true, Bool.or_eq_true, decide_eq_true_eq, beq_iff_eq] at h
    exact h.1.1
  rcases hcontrol with hlt | rfl
  · have hlt' : c.toNat < 32 := hlt
    omega
  · decide

/-- A character is escaped by a letter or by its code, or it stands for itself. -/
theorem writeChar_cases (c : Char) (hline : c ≠ '\n') :
    (∃ e, Escape.of? e = some (.char c) ∧ writeChar c = ['\\', e]) ∨
    (c.toNat < 256 ∧ writeChar c =
      ['\\', 'u', '0', '0', hexDigit .upper (c.toNat / 16), hexDigit .upper (c.toNat % 16)]) ∨
    ((isTextChar c = true ∧ c ≠ '\\') ∧ writeChar c = [c]) := by
  unfold writeChar
  split
  · exact .inl ⟨_, rfl, rfl⟩
  · exact .inl ⟨_, rfl, rfl⟩
  · exact .inl ⟨_, rfl, rfl⟩
  · exact .inl ⟨_, rfl, rfl⟩
  · exact .inl ⟨_, rfl, rfl⟩
  · next hbackslash =>
    cases hescape : needsEscape c with
    | true => exact .inr (.inl ⟨toNat_lt_of_needsEscape hescape, rfl⟩)
    | false => exact .inr (.inr ⟨⟨isTextChar_of_needsEscape hescape hline, hbackslash⟩, rfl⟩)

/-- What is written for a character starts with one that has no meaning between the quotes
    but, perhaps, that of an escape. -/
theorem exists_writeChar {c : Char} (hquote : c ≠ '"') (hline : c ≠ '\n') :
    ∃ d piece, writeChar c = d :: piece ∧ d ≠ '"' ∧ isTextChar d = true := by
  rcases writeChar_cases c hline with ⟨e, he, hwritten⟩ | ⟨hlt, hwritten⟩ |
    ⟨⟨htext, hbackslash⟩, hwritten⟩
  · exact ⟨_, _, hwritten, by decide, by decide⟩
  · exact ⟨_, _, hwritten, by decide, by decide⟩
  · exact ⟨_, _, hwritten, hquote, htext⟩

section
variable {lines : Bool} {read rest : List Char} {c : Char}

/-- A character that has no meaning of its own is part of the text. -/
theorem escapedOnto_plain (htext : isTextChar c = true) (hquote : c ≠ '"')
    (hbackslash : c ≠ '\\') :
    escapedOnto lines (.text false) read (c :: rest) =
      escapedOnto lines (.text false) (c :: read) rest := by
  simp [escapedOnto, htext, hquote, hbackslash]

theorem escapedOnto_newline :
    escapedOnto true (.text false) read ('\n' :: rest) =
      escapedOnto true (.text false) ('\n' :: read) rest := by
  simp [escapedOnto]

theorem escapedOnto_escape {e : Char} (h : Escape.of? e = some (.char c)) :
    escapedOnto lines (.text false) read ('\\' :: e :: rest) =
      escapedOnto lines (.text false) (c :: read) rest := by
  simp [escapedOnto, h]

/-- The code of a character, in four digits of which the first two are zero. -/
theorem escapedOnto_code (h : c.toNat < 256) :
    escapedOnto lines (.text false) read
      ('\\' :: 'u' :: '0' :: '0' :: hexDigit .upper (c.toNat / 16) ::
        hexDigit .upper (c.toNat % 16) :: rest) =
      escapedOnto lines (.text false) (c :: read) rest := by
  have hhigh := hexValue?_hexDigit .upper (c.toNat / 16) (by omega)
  have hlow := hexValue?_hexDigit .upper (c.toNat % 16) (by omega)
  have hzero : hexValue? '0' = some 0 := by decide
  have hcode : Escape.of? 'u' = some (.code 4) := rfl
  have hchar : charOf? (c.toNat / 16 * 16 + c.toNat % 16) = some c := by
    have hvalid : c.toNat.isValidChar := c.valid
    rw [Nat.div_add_mod', charOf?, if_pos hvalid, Char.ofNat_toNat]
  simp [escapedOnto, hcode, hzero, hhigh, hlow, hchar]

/-- A character as it is written is read as it was. -/
theorem escapedOnto_writeChar (hquote : c ≠ '"') (hline : c ≠ '\n') :
    escapedOnto lines (.text false) read (writeChar c ++ rest) =
      escapedOnto lines (.text false) (c :: read) rest := by
  rcases writeChar_cases c hline with ⟨e, he, hwritten⟩ | ⟨hlt, hwritten⟩ |
    ⟨⟨htext, hbackslash⟩, hwritten⟩
  · rw [hwritten]
    exact escapedOnto_escape he
  · rw [hwritten]
    exact escapedOnto_code hlt
  · rw [hwritten]
    exact escapedOnto_plain htext hquote hbackslash

end

/-! ## On one line -/

/-- A text that is escaped on one line is read up to the quote that closes it. -/
theorem escapedOnto_writeEscaped (text read rest : List Char) :
    escapedOnto false (.text false) read (writeEscaped text ++ '"' :: rest) =
      some (read.reverse ++ text, rest) := by
  induction text generalizing read with
  | nil => simp [writeEscaped, escapedOnto]
  | cons c text ih =>
    have hread : escapedOnto false (.text false) read (writeEscaped (c :: text) ++ '"' :: rest) =
        escapedOnto false (.text false) (c :: read) (writeEscaped text ++ '"' :: rest) := by
      by_cases hquote : c = '"'
      · subst hquote
        exact escapedOnto_escape rfl
      by_cases hline : c = '\n'
      · subst hline
        exact escapedOnto_escape rfl
      have hwritten : writeEscaped (c :: text) = writeChar c ++ writeEscaped text := by
        simp [writeEscaped, hquote, hline]
      rw [hwritten, List.append_assoc]
      exact escapedOnto_writeChar hquote hline
    rw [hread, ih, List.reverse_cons, List.append_assoc]
    rfl

/-- No quote of a text is met before the one that closes it. -/
theorem exists_writeEscaped (c : Char) (text : List Char) :
    ∃ d more, writeEscaped (c :: text) = d :: more ∧ d ≠ '"' := by
  by_cases hquote : c = '"'
  · subst hquote
    exact ⟨_, _, rfl, by decide⟩
  by_cases hline : c = '\n'
  · subst hline
    exact ⟨_, _, rfl, by decide⟩
  obtain ⟨d, piece, hwritten, hd, -⟩ := exists_writeChar hquote hline
  exact ⟨d, piece ++ writeEscaped text, by simp [writeEscaped, hquote, hline, hwritten], hd⟩

/-- A text without control characters and without the quote is read up to that quote. -/
theorem plain_of_isTextChar {text : List Char}
    (htext : ∀ c ∈ text, isTextChar c = true ∧ c ≠ '\x27') (rest : List Char) :
    plain (text ++ '\x27' :: rest) = some (text, rest) := by
  have htake : (text ++ '\x27' :: rest).takeWhile (fun c => isTextChar c && c != '\x27') =
      text := takeWhile_append_eq (by simpa using htext) (by simp)
  unfold plain
  simp [htake]

/-! ## Over several lines -/

/-- A reader of text over several lines: three quotes in a row close the text, and a quote
    that does not start such a row belongs to it. -/
structure ReadsLines (quote : Char) (readOnto : List Char → Reader (List Char)) : Prop where
  /-- Three quotes are the end, or all but the end if more follow. -/
  close : ∀ read rest, readOnto read (quote :: quote :: quote :: rest) =
    some (closeLines quote read rest)
  /-- Any other quote is passed. -/
  pass : ∀ read rest, (∀ after, rest ≠ quote :: quote :: after) →
    readOnto read (quote :: rest) = readOnto (quote :: read) rest

/-- `written` stands for `text`, with `run` quotes in a row before it. -/
inductive Writes (quote : Char) (readOnto : List Char → Reader (List Char)) :
    Nat → List Char → List Char → Prop
  /-- An empty text is written as nothing. -/
  | done {run : Nat} : Writes quote readOnto run [] []
  /-- A quote stands for itself if no two others are right before it. -/
  | quote {run : Nat} {text written : List Char} (hrun : run < 2)
    (hmore : Writes quote readOnto (run + 1) text written) :
    Writes quote readOnto run (quote :: text) (quote :: written)
  /-- Anything else, and a third quote in a row, is written in a way that the reader takes for
      it, and that does not start with a quote. -/
  | piece {run : Nat} {c : Char} (d : Char) (piece : List Char) {text written : List Char}
    (hc : c = quote → run = 2) (hd : d ≠ quote)
    (hread : ∀ read rest, readOnto read (d :: piece ++ rest) = readOnto (c :: read) rest)
    (hmore : Writes quote readOnto 0 text written) :
    Writes quote readOnto run (c :: text) (d :: piece ++ written)

/-- What is left of the text are quotes that stand right before the closing ones, no more than
    two with the `run` quotes before them. -/
def IsLastRun (quote : Char) (run : Nat) (text : List Char) : Prop :=
  ∃ k, text = List.replicate k quote ∧ run + k ≤ 2

theorem isLastRun_nil {quote : Char} {run : Nat} (hrun : run ≤ 2) : IsLastRun quote run [] :=
  ⟨0, rfl, hrun⟩

theorem IsLastRun.cons {quote : Char} {run : Nat} {text : List Char}
    (h : IsLastRun quote (run + 1) text) : IsLastRun quote run (quote :: text) := by
  obtain ⟨k, rfl, hk⟩ := h
  exact ⟨k + 1, rfl, by omega⟩

/-- Up to two quotes behind the closing ones belong to the text. -/
theorem closeLines_replicate {quote : Char} {k : Nat} {rest : List Char} (hk : k ≤ 2)
    (hrest : rest.head? ≠ some quote) (read : List Char) :
    closeLines quote read (List.replicate k quote ++ rest) =
      (read.reverse ++ List.replicate k quote, rest) := by
  have htake : (List.replicate k quote ++ rest).takeWhile (· == quote) =
      List.replicate k quote := by
    apply takeWhile_append_eq
    · simp
    · rintro c hc
      rw [beq_eq_false_iff_ne]
      rintro rfl
      exact hrest hc
  have hmin : min 2 k = k := by omega
  simp [closeLines, htake, hmin]

section
variable {quote : Char} {readOnto : List Char → Reader (List Char)}
variable {run : Nat} {text written rest : List Char}

/-- Behind two quotes that are not the last of the text no third one is written. -/
theorem Writes.head?_ne (h : Writes quote readOnto 2 text written)
    (hlast : ¬IsLastRun quote 2 text) : (written ++ rest).head? ≠ some quote := by
  cases h with
  | done => exact absurd (isLastRun_nil (Nat.le_refl 2)) hlast
  | quote hrun hmore => omega
  | piece d piece hc hd hread hmore => simpa using hd

/-- A quote that is not one of the last of the text does not start a row of three. -/
theorem Writes.ne_closing (hrun : run < 2) (h : Writes quote readOnto (run + 1) text written)
    (hlast : ¬IsLastRun quote (run + 1) text) (after : List Char) :
    written ++ rest ≠ quote :: quote :: after := by
  intro heq
  cases h with
  | done => exact hlast (isLastRun_nil hrun)
  | quote hmore h =>
    obtain rfl : run = 0 := by omega
    have hhead := congrArg List.head? (List.cons.inj heq).2
    exact h.head?_ne (mt IsLastRun.cons hlast) hhead
  | piece d piece hc hd hread hmore => exact hd (List.cons.inj heq).1

/-- The last quotes of the text are written as they are. -/
theorem Writes.eq_replicate {k : Nat} (hk : run + k ≤ 2)
    (h : Writes quote readOnto run (List.replicate k quote) written) :
    written = List.replicate k quote := by
  induction k generalizing run written with
  | zero =>
    cases h with
    | done => rfl
  | succ k ih =>
    rw [List.replicate_succ] at h
    cases h with
    | quote hrun hmore => rw [ih (by omega) hmore, List.replicate_succ]
    | piece d piece hc hd hread hmore =>
      have hrun := hc rfl
      omega

/-- Quotes before the closing ones are as good as quotes behind them. -/
theorem ReadsLines.close_replicate (hreads : ReadsLines quote readOnto) {k : Nat} (hk : k ≤ 2)
    (hrest : rest.head? ≠ some quote) (read : List Char) :
    readOnto read (List.replicate k quote ++ quote :: quote :: quote :: rest) =
      some (read.reverse ++ List.replicate k quote, rest) := by
  have hmove : List.replicate k quote ++ quote :: quote :: quote :: rest =
      quote :: quote :: quote :: (List.replicate k quote ++ rest) := by
    have hswap : List.replicate k quote ++ List.replicate 3 quote =
        List.replicate 3 quote ++ List.replicate k quote := by
      rw [List.replicate_append_replicate, List.replicate_append_replicate, Nat.add_comm]
    exact (List.append_assoc ..).symm.trans (congrArg (· ++ rest) hswap)
  rw [hmove, hreads.close, closeLines_replicate hk hrest]

/-- **Quotes over several lines**: a text is read up to the three quotes that close it. -/
theorem Writes.readOnto_eq (hreads : ReadsLines quote readOnto)
    (h : Writes quote readOnto run text written) (hrun : run = 0 ∨ ¬IsLastRun quote run text)
    (hrest : rest.head? ≠ some quote) (read : List Char) :
    readOnto read (written ++ quote :: quote :: quote :: rest) =
      some (read.reverse ++ text, rest) := by
  induction h generalizing read with
  | done => exact hreads.close_replicate (k := 0) (Nat.zero_le 2) hrest read
  | @quote run text written hlt hmore ih =>
    by_cases hlast : IsLastRun quote run (quote :: text)
    · -- The reader closes the text at the first of these quotes, and takes as many from behind.
      obtain rfl : run = 0 := hrun.resolve_right (not_not_intro hlast)
      obtain ⟨k, hk, hle⟩ := hlast
      have hall : Writes quote readOnto 0 (quote :: text) (quote :: written) := .quote hlt hmore
      rw [hk] at hall
      rw [hall.eq_replicate hle, hk]
      exact hreads.close_replicate (by omega) hrest read
    · have hmore' := mt IsLastRun.cons hlast
      rw [List.cons_append, hreads.pass _ _ (hmore.ne_closing hlt hmore'), ih (.inr hmore'),
        List.reverse_cons, List.append_assoc]
      rfl
  | piece d piece hc hd hread hmore ih =>
    rw [List.append_assoc, hread, ih (.inl rfl), List.reverse_cons, List.append_assoc]
    rfl

end

theorem readsLines_escaped : ReadsLines '"' (escapedOnto true (.text false)) := by
  constructor
  case close => simp [escapedOnto]
  case pass =>
    intro read rest hpass
    rw [escapedOnto]
    · rfl
    · exact hpass

theorem readsLines_plain : ReadsLines '\x27' plainLinesOnto := by
  constructor
  case close => simp [plainLinesOnto]
  case pass =>
    intro read rest hpass
    rw [plainLinesOnto]
    · rfl
    · exact hpass

/-- Between three double quotes, a text is written as it is read there. -/
theorem writes_writeEscapedLines (text : List Char) {run : Nat} (hrun : run ≤ 2) :
    Writes '"' (escapedOnto true (.text false)) run text (writeEscapedLinesFrom run text) := by
  induction text generalizing run with
  | nil => exact .done
  | cons c text ih =>
    have hmore := ih (Nat.zero_le 2)
    by_cases hquote : c = '"'
    · subst hquote
      by_cases htwo : run = 2
      · simp only [writeEscapedLinesFrom, htwo, beq_self_eq_true, if_true]
        exact .piece '\\' ['"'] (fun _ => rfl) (by decide)
          (fun read rest => escapedOnto_escape rfl) hmore
      · simp only [writeEscapedLinesFrom, beq_self_eq_true, if_true, beq_iff_eq, htwo, if_false]
        exact .quote (by omega) (ih (by omega))
    by_cases hline : c = '\n'
    · subst hline
      exact .piece '\n' [] (fun h => absurd h (by decide)) (by decide)
        (fun read rest => escapedOnto_newline) hmore
    · obtain ⟨d, piece, hwritten, hd, -⟩ := exists_writeChar hquote hline
      simp only [writeEscapedLinesFrom, beq_iff_eq, hquote, hline, if_false]
      rw [hwritten]
      refine .piece d piece (fun h => absurd h hquote) hd (fun read rest => ?_) hmore
      rw [← hwritten]
      exact escapedOnto_writeChar hquote hline

/-- A text that does not start with a line end is not written with one at its head. -/
theorem exists_writeEscapedLines {c : Char} (text : List Char) (hline : c ≠ '\n') :
    ∃ d more, writeEscapedLinesFrom 0 (c :: text) = d :: more ∧ isTextChar d = true := by
  by_cases hquote : c = '"'
  · subst hquote
    exact ⟨_, _, rfl, by decide⟩
  obtain ⟨d, piece, hwritten, -, hd⟩ := exists_writeChar hquote hline
  exact ⟨d, piece ++ writeEscapedLinesFrom 0 text,
    by simp [writeEscapedLinesFrom, hquote, hline, hwritten], hd⟩

theorem run_le_longestRunFrom (c : Char) (run : Nat) (text : List Char) :
    run ≤ longestRunFrom c run text := by
  induction text generalizing run with
  | nil => exact Nat.le_refl run
  | cons d text ih =>
    unfold longestRunFrom
    split
    · exact Nat.le_trans (Nat.le_succ run) (ih (run + 1))
    · exact Nat.le_max_left _ _

/-- Between three single quotes, a text without longer runs of them stands for itself. -/
theorem writes_plainLines {text : List Char} {run : Nat}
    (hrun : longestRunFrom '\x27' run text ≤ 2)
    (htext : ∀ c ∈ text, isTextChar c = true ∨ c = '\n') :
    Writes '\x27' plainLinesOnto run text text := by
  induction text generalizing run with
  | nil => exact .done
  | cons c text ih =>
    rw [List.forall_mem_cons] at htext
    by_cases hquote : c = '\x27'
    · subst hquote
      simp only [longestRunFrom, beq_self_eq_true, if_true] at hrun
      have hle := run_le_longestRunFrom '\x27' (run + 1) text
      exact .quote (by omega) (ih hrun htext.2)
    · simp only [longestRunFrom, beq_iff_eq, hquote, if_false] at hrun
      refine .piece c [] (fun h => absurd h hquote) hquote (fun read rest => ?_)
        (ih (by omega) htext.2)
      rcases htext.1 with hc | rfl
      · simp [plainLinesOnto, hquote, hc]
      · simp [plainLinesOnto]

/-! ## The notation of a text -/

theorem not_mem_of_longestRunFrom {c : Char} {run : Nat} {text : List Char}
    (h : longestRunFrom c run text = 0) : c ∉ text := by
  induction text generalizing run with
  | nil => simp
  | cons d text ih =>
    unfold longestRunFrom at h
    split at h
    · have hle := run_le_longestRunFrom c (run + 1) text
      omega
    · next hne =>
      rw [Nat.max_eq_zero_iff] at h
      rw [beq_iff_eq] at hne
      rw [List.mem_cons, not_or]
      exact ⟨Ne.symm hne, ih h.2⟩

/-- Between single quotes stand texts without control characters and without such quotes. -/
theorem isTextChar_of_plain {text : List Char} (h : Notation.of text = .plain) :
    ∀ c ∈ text, isTextChar c = true ∧ c ≠ '\x27' := by
  obtain ⟨hfree, hquotes, hlines⟩ : text.any needsEscape = false ∧ longestRun '\x27' text = 0 ∧
      '\n' ∉ text := by
    unfold Notation.of at h
    dsimp only at h
    grind
  intro c hc
  constructor
  · exact isTextChar_of_needsEscape (by simpa using List.any_eq_false.1 hfree c hc)
      (ne_of_mem_of_not_mem hc hlines)
  · exact ne_of_mem_of_not_mem hc (not_mem_of_longestRunFrom hquotes)

/-- Between three single quotes stand texts without control characters other than line ends,
    and without three such quotes in a row. -/
theorem isTextChar_of_plainLines {text : List Char} (h : Notation.of text = .plainLines) :
    (∀ c ∈ text, isTextChar c = true ∨ c = '\n') ∧ longestRun '\x27' text ≤ 2 := by
  obtain ⟨hfree, hquotes⟩ : text.any needsEscape = false ∧ longestRun '\x27' text ≤ 2 := by
    unfold Notation.of at h
    dsimp only at h
    grind
  refine ⟨fun c hc => ?_, hquotes⟩
  by_cases hline : c = '\n'
  · exact .inr hline
  · exact .inl (isTextChar_of_needsEscape (by simpa using List.any_eq_false.1 hfree c hc) hline)

theorem newline?_of_isTextChar {c : Char} (h : isTextChar c = true) (rest : List Char) :
    newline? (c :: rest) = none := by
  unfold newline?
  split
  · next heq =>
    rw [(List.cons.inj heq).1] at h
    exact absurd h (by decide)
  · next heq =>
    rw [(List.cons.inj heq).1] at h
    exact absurd h (by decide)
  · rfl

/-- The line end in front of a text is left out again, and no other one is. -/
theorem skipFirstNewline_lineStart {text s : List Char}
    (h : '\n' ∉ text → ∃ d more, s = d :: more ∧ isTextChar d = true) :
    skipFirstNewline (lineStart text ++ s) = s := by
  by_cases hline : '\n' ∈ text
  · have hstart : lineStart text = ['\n'] := if_pos (List.contains_iff_mem.2 hline)
    rw [hstart]
    rfl
  · have hstart : lineStart text = [] := if_neg (mt List.contains_iff_mem.1 hline)
    obtain ⟨d, more, rfl, hd⟩ := h hline
    rw [hstart, List.nil_append, skipFirstNewline, newline?_of_isTextChar hd, Option.getD_none]

/-- A quote that does not start a row of three opens a text on one line. -/
theorem quotedText_of_line {quote : Char} {s : List Char}
    (h : ∀ after, s ≠ quote :: quote :: after) :
    quotedText (quote :: s) = lineText (quote :: s) := by
  unfold quotedText
  split
  · next heq =>
    obtain ⟨rfl, hs⟩ := List.cons.inj heq
    exact absurd hs (h _)
  · next heq =>
    obtain ⟨rfl, hs⟩ := List.cons.inj heq
    exact absurd hs (h _)
  · rfl

section
variable {text rest : List Char}

theorem quotedText_escaped (hrest : rest.head? ≠ some '"') :
    quotedText ('"' :: (writeEscaped text ++ '"' :: rest)) = some (text, rest) := by
  have hline : ∀ after, writeEscaped text ++ '"' :: rest ≠ '"' :: '"' :: after := by
    intro after heq
    cases text with
    | nil => exact hrest (congrArg List.head? (List.cons.inj heq).2)
    | cons c text =>
      obtain ⟨d, more, hwritten, hd⟩ := exists_writeEscaped c text
      rw [hwritten] at heq
      exact hd (List.cons.inj heq).1
  rw [quotedText_of_line hline]
  exact escapedOnto_writeEscaped text [] rest

theorem quotedText_plain (htext : ∀ c ∈ text, isTextChar c = true ∧ c ≠ '\x27')
    (hrest : rest.head? ≠ some '\x27') :
    quotedText ('\x27' :: (text ++ '\x27' :: rest)) = some (text, rest) := by
  have hline : ∀ after, text ++ '\x27' :: rest ≠ '\x27' :: '\x27' :: after := by
    intro after heq
    cases text with
    | nil => exact hrest (congrArg List.head? (List.cons.inj heq).2)
    | cons c text => exact (htext c List.mem_cons_self).2 (List.cons.inj heq).1
  rw [quotedText_of_line hline]
  exact plain_of_isTextChar htext rest

theorem quotedText_escapedLines (hrest : rest.head? ≠ some '"') :
    quotedText ('"' :: '"' :: '"' :: (lineStart text ++
      (writeEscapedLinesFrom 0 text ++ '"' :: '"' :: '"' :: rest))) = some (text, rest) := by
  have hstart : '\n' ∉ text → ∃ d more,
      writeEscapedLinesFrom 0 text ++ '"' :: '"' :: '"' :: rest = d :: more ∧
        isTextChar d = true := by
    intro hlines
    cases text with
    | nil => exact ⟨_, _, rfl, by decide⟩
    | cons c text =>
      obtain ⟨d, more, hwritten, hd⟩ :=
        exists_writeEscapedLines text (ne_of_mem_of_not_mem List.mem_cons_self hlines)
      exact ⟨d, _, by rw [hwritten]; rfl, hd⟩
  rw [quotedText, skipFirstNewline_lineStart hstart]
  exact (writes_writeEscapedLines text (Nat.zero_le 2)).readOnto_eq readsLines_escaped (.inl rfl)
    hrest []

theorem quotedText_plainLines (htext : ∀ c ∈ text, isTextChar c = true ∨ c = '\n')
    (hquotes : longestRun '\x27' text ≤ 2) (hrest : rest.head? ≠ some '\x27') :
    quotedText ('\x27' :: '\x27' :: '\x27' :: (lineStart text ++
      (text ++ '\x27' :: '\x27' :: '\x27' :: rest))) = some (text, rest) := by
  have hstart : '\n' ∉ text → ∃ d more,
      text ++ '\x27' :: '\x27' :: '\x27' :: rest = d :: more ∧ isTextChar d = true := by
    intro hlines
    cases text with
    | nil => exact ⟨_, _, rfl, by decide⟩
    | cons c text =>
      have hline : c ≠ '\n' := ne_of_mem_of_not_mem List.mem_cons_self hlines
      exact ⟨_, _, rfl, (htext c List.mem_cons_self).resolve_right hline⟩
  rw [quotedText, skipFirstNewline_lineStart hstart]
  exact (writes_plainLines hquotes htext).readOnto_eq readsLines_plain (.inl rfl) hrest []

end

/-- **Any text**: a text in its notation is read as it was, in front of anything that does not
    go on with a quote. -/
theorem quotedText_writeText (text : List Char) {rest : List Char}
    (hdouble : rest.head? ≠ some '"') (hsingle : rest.head? ≠ some '\x27') :
    quotedText (writeText text ++ rest) = some (text, rest) := by
  cases hnotation : Notation.of text with
  | escaped =>
    simpa [writeText, hnotation] using quotedText_escaped hdouble
  | plain =>
    simpa [writeText, hnotation] using quotedText_plain (isTextChar_of_plain hnotation) hsingle
  | escapedLines =>
    simpa [writeText, hnotation] using quotedText_escapedLines hdouble
  | plainLines =>
    obtain ⟨htext, hquotes⟩ := isTextChar_of_plainLines hnotation
    simpa [writeText, hnotation] using quotedText_plainLines htext hquotes hsingle

end SqlTokens.Toml
