import SqlTokens.Proofs.Canonical

/-! # The diagnosis of a statement

    A reading of a statement ends with its first malformed token or, if there is none,
    with the end of the input, whether comments are shown or not
    (`Lexer.find?_isMalformed_eq`).  The message names that token: where the lexer
    stands after it, and its text, which a malformed token always has
    (`Lexer.error?_eq`). -/

namespace SqlTokens

/-- What is said of a malformed token: where the lexer stands after it, and its text. -/
def Scanned.diagnosis (x : Scanned) : String :=
  "syntax error at position " ++ toString x.stop ++ " near " ++ x.token.text

theorem Scanned.diagnosis_of_value {x : Scanned} {value : Bytes}
    (h : x.token.value = some value) :
    x.diagnosis =
      "syntax error at position " ++ toString x.stop ++ " near " ++ Utf8.toStringLossy value := by
  have htext : x.token.text = Utf8.toStringLossy value := by
    rw [Token.text, Token.bytes, h, Option.getD_some]
  unfold diagnosis
  rw [htext]

/-- Whether a reading ends with this token. -/
def Scanned.endsReading (x : Scanned) : Bool :=
  x.token.isEnd || x.token.isMalformed

theorem Scanned.endsReading_of_isEnd {x : Scanned} (h : x.token.isEnd = true) :
    x.endsReading = true := by
  rw [endsReading, h, Bool.true_or]

theorem Scanned.endsReading_of_isMalformed {x : Scanned} (h : x.token.isMalformed = true) :
    x.endsReading = true := by
  rw [endsReading, h, Bool.or_true]

/-- The last token of a reading is no comment, so it is handed out. -/
theorem Scanned.isShown_of_endsReading {x : Scanned} (h : x.endsReading = true) (shown : Bool) :
    x.isShown shown = true := by
  have hkind : x.token.kind ≠ .comment := by
    intro hk
    simp [endsReading, Token.isEnd, Token.isMalformed, hk] at h
  simp [isShown, hkind]

/-- Whole or cut off, what is malformed carries a text. -/
theorem exists_value?_of_spells {source : Bytes} {content : Content}
    (h : TokenKind.malformed.Spells source content) (n : Nat) :
    ∃ value, content.value? n = some value := by
  rcases h with rfl | ⟨d, -, items, rfl, -⟩
  · exact ⟨_, rfl⟩
  · exact ⟨_, rfl⟩

/-- The text of a malformed token is never missing. -/
theorem Scanner.exists_value_of_isMalformed {s : Scanner} (h : s.next.1.isMalformed = true) :
    ∃ value, s.next.1.value = some value := by
  obtain ⟨⟨rest, p⟩, n⟩ := s
  rcases blank_or_lexeme rest with hs | ⟨blanks, b, more, tail, rfl, hs, hb, hr⟩
  · rw [next_blank hs] at h
    exact absurd h Bool.false_ne_true
  · rw [next_lexeme hs hb hr] at h ⊢
    have hkind := Token.isMalformed_iff.1 h
    have hspelled := Lexeme.read_isSpelled b (more ++ tail)
    rw [Lexeme.IsSpelled, show (Lexeme.read b (more ++ tail)).kind = _ from hkind] at hspelled
    exact exists_value?_of_spells hspelled _

namespace Lexer

/-! ## The last token of a reading -/

theorem exists_value_of_scan {lx : Lexer} (h : lx.scan.1.isMalformed = true) :
    ∃ value, lx.scan.1.value = some value := by
  unfold scan at h ⊢
  split
  · next ht =>
    rw [if_pos ht] at h
    exact absurd h Bool.false_ne_true
  · next ht =>
    rw [if_neg ht] at h
    exact Scanner.exists_value_of_isMalformed h

/-- What `next` hands out it has scanned, and it remembers the text. -/
theorem exists_next_eq (lx : Lexer) :
    ∃ lx' : Lexer, lx.next = (lx'.scan.1, { lx'.scan.2 with lastText := lx'.scan.1.value }) := by
  obtain ⟨k, -, -, -, hnext⟩ := lx.exists_next_eq_scans
  exact ⟨lx.scans k, hnext⟩

/-- The last pull of a course is a pull. -/
theorem exists_last_eq (view : View) (stops : Token → Bool) (lx : Lexer) :
    ∃ lx' : Lexer, (lx.course view stops).last = lx'.pull view := by
  unfold course
  generalize [] = before
  induction before, lx using courseOnto.induct view stops with
  | case1 before lx token after hpull hends =>
    rw [courseOnto_of_pull hpull, if_pos hends]
    exact ⟨lx, hpull.symm⟩
  | case2 before lx token after hpull hends ih =>
    rw [courseOnto_of_pull hpull, if_neg hends]
    exact ih

theorem malformedDiagnosis_of_lastText {token : Token} {after : Lexer} {value : Bytes}
    (htext : after.lastText = token.value) (hvalue : token.value = some value) :
    after.malformedDiagnosis = (Scanned.ofPull (token, after)).diagnosis := by
  have hplaced : "syntax error" ++ " at position " = "syntax error at position " := by decide
  calc after.malformedDiagnosis
      = "syntax error" ++ " at position " ++ toString after.position ++ " near " ++
          Utf8.toStringLossy value := by rw [malformedDiagnosis, diagnosis, htext, hvalue]
    _ = "syntax error at position " ++ toString after.position ++ " near " ++
          Utf8.toStringLossy value := by rw [hplaced]
    _ = (Scanned.ofPull (token, after)).diagnosis :=
        (Scanned.diagnosis_of_value (x := .ofPull (token, after)) hvalue).symm

/-- The message that a reading ends with is about its last token. -/
theorem malformedDiagnosis_eq {lx : Lexer} (h : lx.readStatement.last.1.isMalformed = true) :
    lx.readStatement.last.2.malformedDiagnosis =
      (Scanned.ofPull lx.readStatement.last).diagnosis := by
  obtain ⟨lx', hlast⟩ := exists_last_eq .shown Token.isMalformed lx
  obtain ⟨lx'', hnext⟩ := lx'.exists_next_eq
  have hpull : lx.readStatement.last =
      (lx''.scan.1, { lx''.scan.2 with lastText := lx''.scan.1.value }) := hlast.trans hnext
  rw [hpull] at h
  obtain ⟨value, hvalue⟩ := exists_value_of_scan h
  rw [hpull]
  exact malformedDiagnosis_of_lastText rfl hvalue

/-- What a reading hands out, when the stream is left at `x`: what is shown before it, and
    then `x` as the last token. -/
theorem map_ofPull_before {lx : Lexer} {xs : List Scanned} {x : Scanned}
    (h : throughMalformed lx.stream = xs ++ [x]) (hx : x.endsReading = true) :
    lx.readStatement.before.map Scanned.ofPull = xs.filter (Scanned.isShown lx.showsComments) ∧
      Scanned.ofPull lx.readStatement.last = x := by
  have hpulls := lx.readStatement_pulls
  rw [h, List.filter_append, List.filter_cons_of_pos (Scanned.isShown_of_endsReading hx _),
    List.filter_nil, Course.pulls, List.map_append] at hpulls
  obtain ⟨hbefore, hlast⟩ := List.append_inj' hpulls rfl
  exact ⟨hbefore, (List.cons.inj hlast).1⟩

theorem ofPull_last_eq {lx : Lexer} {xs : List Scanned} {x : Scanned}
    (h : throughMalformed lx.stream = xs ++ [x]) (hx : x.endsReading = true) :
    Scanned.ofPull lx.readStatement.last = x :=
  (map_ofPull_before h hx).2

theorem exists_stream_eq_concat (lx : Lexer) : ∃ xs p n, lx.stream = xs ++ [.ending p n] := by
  by_cases h : lx.isTruncated = true
  · exact ⟨[], _, _, stream_of_isTruncated h⟩
  · obtain ⟨gs, hgs⟩ := exists_cuts lx.scanner.cursor.rest
    exact ⟨_, _, _, stream_eq_layout (Bool.eq_false_iff.2 h) hgs⟩

/-- A reading ends with the first malformed token, if there is one. -/
theorem find?_isMalformed_eq (lx : Lexer) :
    lx.stream.find? (fun x => x.token.isMalformed) =
      if lx.readStatement.last.1.isMalformed then some (.ofPull lx.readStatement.last)
      else none := by
  cases hfind : lx.stream.find? fun x => x.token.isMalformed with
  | some x =>
    obtain ⟨hx, before, after, hstream, hbefore⟩ := List.find?_eq_some_iff_append.1 hfind
    have hno : ∀ y ∈ before, y.token.isMalformed = false := by
      intro y hy
      simpa using hbefore y hy
    have hthrough : throughMalformed lx.stream = before ++ [x] := by
      rw [hstream, throughMalformed, throughFirst_append hno, throughFirst, if_pos hx]
    have hlast := ofPull_last_eq hthrough (Scanned.endsReading_of_isMalformed hx)
    have htoken : lx.readStatement.last.1 = x.token := congrArg Scanned.token hlast
    rw [htoken, if_pos hx, hlast]
  | none =>
    have hno : ∀ x ∈ lx.stream, x.token.isMalformed = false := by
      intro x hx
      simpa using List.find?_eq_none.1 hfind x hx
    obtain ⟨xs, p, n, hstream⟩ := lx.exists_stream_eq_concat
    have hthrough : throughMalformed lx.stream = xs ++ [.ending p n] :=
      (throughFirst_eq_self hno).trans hstream
    have hlast := ofPull_last_eq hthrough (Scanned.endsReading_of_isEnd rfl)
    have htoken : lx.readStatement.last.1 = ⟨.endOfInput, none, p⟩ :=
      congrArg Scanned.token hlast
    rw [htoken, if_neg]
    exact Bool.false_ne_true

/-- **Diagnosis**: a reading is refused if there is a malformed token, and the message is
    about the first one. -/
theorem error?_eq (lx : Lexer) :
    lx.readStatement.error? =
      (lx.stream.find? fun x => x.token.isMalformed).map fun x => .sqlParsing x.diagnosis := by
  rw [find?_isMalformed_eq, Course.error?]
  by_cases h : lx.readStatement.last.1.isMalformed = true
  · rw [if_pos h, if_pos h, malformedDiagnosis_eq h]
    rfl
  · rw [if_neg h, if_neg h]
    rfl

end Lexer

end SqlTokens
