import SqlTokens.Lexer.Statement
import SqlTokens.Proofs.Stream

/-! # What a reading shows

    A lexer that does not scan hands out tokens of the scan stream: those that are
    shown, up to the one at which its consumer stops (`Lexer.course_pulls`), as the
    reading of a statement does at the first malformed one
    (`Lexer.readStatement_pulls`).  Where it stands after each of them, and how many
    placeholders it has counted, is as in the stream.  So comments matter to nothing
    but whether they are handed out. -/

namespace SqlTokens

/-- Whether a token is handed out, when comments are shown or not. -/
def Scanned.isShown (shown : Bool) (x : Scanned) : Bool :=
  shown || x.token.kind != .comment

/-- The tokens up to the first at which a consumer stops, it among them. -/
def throughFirst (stops : Token → Bool) : List Scanned → List Scanned
  | [] => []
  | x :: xs => if stops x.token then [x] else x :: throughFirst stops xs

theorem throughFirst_append {stops : Token → Bool} {xs : List Scanned}
    (h : ∀ x ∈ xs, stops x.token = false) (ys : List Scanned) :
    throughFirst stops (xs ++ ys) = xs ++ throughFirst stops ys := by
  induction xs with
  | nil => rfl
  | cons x xs ih =>
    obtain ⟨hx, hxs⟩ := List.forall_mem_cons.1 h
    rw [List.cons_append, throughFirst, hx, ih hxs]
    rfl

/-- Who does not stop gets all. -/
theorem throughFirst_eq_self {stops : Token → Bool} {xs : List Scanned}
    (h : ∀ x ∈ xs, stops x.token = false) : throughFirst stops xs = xs := by
  have happend := throughFirst_append h []
  rwa [List.append_nil, throughFirst, List.append_nil] at happend

/-- The tokens up to the first malformed one, it among them. -/
def throughMalformed : List Scanned → List Scanned :=
  throughFirst Token.isMalformed

namespace Lexer

theorem showsComments_scan (lx : Lexer) : lx.scan.2.showsComments = lx.showsComments := by
  unfold scan
  split
  · rfl
  · rfl

theorem stream_of_isTruncated {lx : Lexer} (h : lx.isTruncated = true) :
    lx.stream = [.ending lx.position lx.ordinals] := by
  have hscan : lx.scan = (⟨.endOfInput, none, lx.position⟩, lx) := by rw [scan, if_pos h]
  rw [stream_eq, hscan]
  rfl

/-- The scan stream does not depend on what a lexer keeps for its messages. -/
theorem stream_congr {lx lx' : Lexer} (hs : lx'.scanner = lx.scanner)
    (ht : lx'.isTruncated = lx.isTruncated) : lx'.stream = lx.stream := by
  have hposition : lx'.position = lx.position := by rw [position, position, hs]
  have hordinals : lx'.ordinals = lx.ordinals := by rw [ordinals, ordinals, hs]
  cases h : lx.isTruncated with
  | true =>
    rw [stream_of_isTruncated h, stream_of_isTruncated (ht.trans h), hposition, hordinals]
  | false =>
    obtain ⟨gs, hgs⟩ := exists_cuts lx.scanner.cursor.rest
    have hgs' : Cuts lx'.scanner.cursor.rest gs := hs ▸ hgs
    rw [stream_eq_layout h hgs, stream_eq_layout (ht.trans h) hgs', hposition, hordinals, hs]

/-- A course from where comments are passed over is a course from behind them. -/
theorem course_of_next_eq {lx lx' : Lexer} (h : lx.next = lx'.next) (stops : Token → Bool) :
    lx.course .shown stops = lx'.course .shown stops := by
  have hpull : lx.pull .shown = lx'.pull .shown := h
  rw [course_eq lx, course_eq lx', hpull]

/-- **Visibility**: a consumer who does not stop at comments is handed out the shown
    tokens of the scan stream, up to the first at which he stops. -/
theorem course_pulls (lx : Lexer) {stops : Token → Bool}
    (hstops : ∀ t : Token, t.kind = .comment → stops t = false) :
    (lx.course .shown stops).pulls.map Scanned.ofPull =
      (throughFirst stops lx.stream).filter (Scanned.isShown lx.showsComments) := by
  -- By induction on what is left: a scan leaves less, unless it is at the end.
  induction hn : lx.remaining using Nat.strongRecOn generalizing lx with
  | ind n ih =>
    subst hn
    by_cases hhidden : lx.scan.1.kind = .comment ∧ !lx.showsComments
    · -- A hidden comment is passed over.
      have hend : lx.scan.1.kind ≠ .endOfInput := by simp [hhidden.1]
      have hgoes : stops (Scanned.ofPull lx.scan).token = false := hstops _ hhidden.1
      have hnotShown : Scanned.isShown lx.showsComments (.ofPull lx.scan) = false := by
        simpa [Scanned.isShown, Scanned.ofPull, hhidden.1] using hhidden.2
      have hnext : lx.next = lx.scan.2.next := by rw [next_eq, if_pos hhidden]
      rw [course_of_next_eq hnext, ih _ (lx.remaining_scan_lt hend) _ rfl,
        lx.stream_eq, if_neg hend, throughFirst, hgoes, showsComments_scan]
      simp [hnotShown]
    · -- Any other token is handed out, and is the last one or has a course after it.
      have hshown : Scanned.isShown lx.showsComments (.ofPull lx.scan) = true := by
        cases hs : lx.showsComments with
        | true => rfl
        | false =>
          have hkind : lx.scan.1.kind ≠ .comment := fun hc => hhidden ⟨hc, by simp [hs]⟩
          simpa [Scanned.isShown, Scanned.ofPull] using hkind
      have hpull : lx.pull .shown =
          (lx.scan.1, { lx.scan.2 with lastText := lx.scan.1.value }) := by
        rw [pull, next_eq, if_neg hhidden]
      have htoken : (Scanned.ofPull lx.scan).token = lx.scan.1 := rfl
      rw [course_eq, hpull, lx.stream_eq, throughFirst, htoken]
      by_cases hend : lx.scan.1.kind = .endOfInput
      · -- Behind the end nothing is left, so it does not matter if he stops there.
        rw [if_pos (.inl hend), if_pos hend, throughFirst, ite_self,
          List.filter_cons_of_pos hshown]
        rfl
      · rw [if_neg hend]
        by_cases hyes : stops lx.scan.1 = true
        · rw [if_pos (.inr hyes), if_pos hyes, List.filter_cons_of_pos hshown]
          rfl
        · have hrest := ih _ (lx.remaining_scan_lt hend)
            { lx.scan.2 with lastText := lx.scan.1.value } rfl
          have hstream : Lexer.stream { lx.scan.2 with lastText := lx.scan.1.value } =
              lx.scan.2.stream := stream_congr rfl rfl
          rw [hstream] at hrest
          rw [if_neg (not_or.2 ⟨hend, hyes⟩), if_neg hyes, Course.pulls_cons, List.map_cons,
            List.filter_cons_of_pos hshown, ← showsComments_scan lx]
          exact congrArg _ hrest

/-- **Readings**: a reading hands out the shown tokens of the scan stream, up to the
    first malformed one. -/
theorem readStatement_pulls (lx : Lexer) :
    lx.readStatement.pulls.map Scanned.ofPull =
      (throughMalformed lx.stream).filter (Scanned.isShown lx.showsComments) := by
  apply lx.course_pulls
  intro t hkind
  rw [Token.isMalformed, hkind]
  rfl

/-- **To the end**: all of the stream that is shown, malformed tokens among it. -/
theorem wholeCourse_pulls (lx : Lexer) :
    (lx.wholeCourse .shown).pulls.map Scanned.ofPull =
      lx.stream.filter (Scanned.isShown lx.showsComments) := by
  have hnever : ∀ t : Token, t.kind = .comment → (fun _ : Token => false) t = false :=
    fun _ _ => rfl
  have hpulls := lx.course_pulls hnever
  rwa [throughFirst_eq_self fun _ _ => rfl] at hpulls

section
variable {lx : Lexer} (h : ∀ x ∈ lx.stream, x.token.isMalformed = false)
include h

/-- What is read of a stream without a malformed token is all that is shown. -/
theorem pulls_of_wellFormed :
    lx.readStatement.pulls.map Scanned.ofPull =
      lx.stream.filter (Scanned.isShown lx.showsComments) := by
  rw [readStatement_pulls, throughMalformed, throughFirst_eq_self h]

theorem isMalformed_last_of_wellFormed : lx.readStatement.last.1.isMalformed = false := by
  have hmem : Scanned.ofPull lx.readStatement.last ∈
      lx.readStatement.pulls.map Scanned.ofPull := by simp [Course.pulls]
  rw [pulls_of_wellFormed h] at hmem
  exact h _ (List.mem_filter.1 hmem).1

theorem result_of_wellFormed :
    lx.readStatement.result =
      .ok ((lx.stream.filter (Scanned.isShown lx.showsComments)).map Scanned.token) := by
  rw [Course.result, Course.error?, isMalformed_last_of_wellFormed h, Course.tokens_eq,
    pulls_of_wellFormed h]
  rfl

end

/-- A reading of a statement without a malformed token hands out all that is shown,
    and ends where the stream ends. -/
theorem readStatement_of_wellFormed {input : Bytes}
    (h : ∀ x ∈ scanned input, x.token.isMalformed = false) :
    let course := (start input).readStatement
    course.result = .ok (((scanned input).filter (Scanned.isShown false)).map Scanned.token) ∧
      (scanned input).getLast? = some (.ofPull course.last) ∧
      course.lexer = course.last.2 := by
  intro course
  have hpulls : course.pulls.map Scanned.ofPull =
      (scanned input).filter (Scanned.isShown false) := pulls_of_wellFormed h
  have hlast : course.pulls.map Scanned.ofPull =
      course.before.map Scanned.ofPull ++ [.ofPull course.last] := List.map_append
  have hno : course.last.1.isMalformed = false := isMalformed_last_of_wellFormed h
  refine ⟨result_of_wellFormed h, ?_, ?_⟩
  · -- The end of the input is shown, so it is the last token of both.
    obtain ⟨gs, hgs⟩ := exists_cuts input
    rw [scanned_eq_layout hgs, Segment.stream] at hpulls ⊢
    rw [hlast, List.filter_append] at hpulls
    have hend := congrArg List.getLast? hpulls
    rw [List.getLast?_concat] at hend
    rw [hend, List.getLast?_concat]
    exact (List.getLast?_concat).symm
  · rw [Course.lexer, hno]
    rfl

end Lexer

end SqlTokens
