import SqlTokens.Proofs.Displacement
import SqlTokens.Proofs.Lockstep

/-! # What comes after a place

    Where a lexer stands, and how many placeholders it has counted, matters to what it
    hands out from there on in one way only: to the positions of the tokens, and to the
    names that are made for the `?`.  So from a place between two tokens on, a lexer goes
    in step with a fresh lexer of the bytes behind that place (`Lexer.session_suffix`).

    * **One scan**: `Scanner.next_moved` — the token is moved, and so is the scanner.
    * **One command**: `Lexer.Displaced.perform` — the reply is moved, be it a refusal. -/

namespace SqlTokens

/-! ## Moved tokens -/

/-- `t'` is the token `t` of `input`, moved by `k` bytes.  Its text is the same, but for
    a `?`: there the number in the name is raised by `m`. -/
structure Token.Moved (input : Bytes) (k m : Nat) (t t' : Token) : Prop where
  kind : t'.kind = t.kind
  position : t'.position = t.position + k
  value : if t.isQuestion input then
      ∃ n, t.value = some (ordinalName n) ∧ t'.value = some (ordinalName (n + m))
    else t'.value = t.value

theorem Token.isQuestion_eq_false {input : Bytes} {t : Token} (h : t.kind ≠ .placeholder) :
    t.isQuestion input = false := by
  rw [Token.isQuestion, beq_false_of_ne h, Bool.false_and]

/-- A `?` is seen by its byte. -/
theorem Lexeme.isQuestion_read (before blanks rest : Bytes) (b : UInt8) (value : Option Bytes) :
    Token.isQuestion (before ++ (blanks ++ b :: rest))
        ⟨(read b rest).kind, value, before.length + 1 + blanks.length⟩ = true ↔
      (read b rest).content = .ordinal := by
  have hbyte : (before ++ (blanks ++ b :: rest))[before.length + 1 + blanks.length - 1]? =
      some b := by
    rw [show before.length + 1 + blanks.length - 1 = before.length + blanks.length by omega,
      List.getElem?_append_right (Nat.le_add_right _ _), Nat.add_sub_cancel_left,
      List.getElem?_append_right (Nat.le_refl _), Nat.sub_self]
    rfl
  rw [Token.isQuestion, hbyte, Bool.and_eq_true, beq_iff_eq, beq_iff_eq, Option.some.injEq]
  constructor
  · rintro ⟨-, rfl⟩
    rfl
  · intro hordinal
    obtain ⟨more, tail, -, hsource⟩ := exists_tail b rest
    rw [content_eq_ordinal_iff, hsource] at hordinal
    obtain ⟨rfl, -⟩ := List.cons.inj hordinal
    exact ⟨rfl, rfl⟩

/-- `s'` has the same bytes left as `s`, `k` bytes further on and with `m` more
    placeholders counted. -/
structure Scanner.Moved (k m : Nat) (s s' : Scanner) : Prop where
  rest : s'.cursor.rest = s.cursor.rest
  position : s'.position = s.position + k
  ordinals : s'.ordinals = s.ordinals + m

/-- **One scan**: from two places with the same bytes left, the same token is handed out,
    moved. -/
theorem Scanner.next_moved {before : Bytes} {k m : Nat} {s s' : Scanner}
    (hs : s.position = before.length + 1) (h : s.Moved k m s') :
    s.next.1.Moved (before ++ s.cursor.rest) k m s'.next.1 ∧ s.next.2.Moved k m s'.next.2 := by
  obtain ⟨⟨rest, p⟩, n⟩ := s
  obtain ⟨⟨rest', p'⟩, n'⟩ := s'
  obtain ⟨hrest, hposition, hordinals⟩ := h
  obtain rfl : p = before.length + 1 := hs
  obtain rfl : rest' = rest := hrest
  obtain rfl : p' = before.length + 1 + k := hposition
  obtain rfl : n' = n + m := hordinals
  rcases blank_or_lexeme rest' with hblank | ⟨blanks, b, more, tail, rfl, hblank, hb, hr⟩
  · rw [next_blank hblank, next_blank hblank]
    refine ⟨⟨rfl, Nat.add_right_comm _ _ _, ?_⟩, rfl, Nat.add_right_comm _ _ _, rfl⟩
    rw [Token.isQuestion_eq_false (by simp), if_neg Bool.false_ne_true]
  · rw [next_lexeme hblank hb hr, next_lexeme hblank hb hr]
    have hcount : (Lexeme.read b (more ++ tail)).content.count (n + m) =
        (Lexeme.read b (more ++ tail)).content.count n + m := by
      exact_mod_cast Content.count_eq_add (Int.natCast_add n m) _
    refine ⟨⟨rfl, Nat.add_right_comm _ _ _, ?_⟩, rfl, ?_, hcount⟩
    · dsimp only
      rw [hcount]
      split
      · next hq =>
        rw [Lexeme.isQuestion_read] at hq
        rw [hq]
        exact ⟨_, rfl, rfl⟩
      · next hq =>
        rw [Lexeme.isQuestion_read] at hq
        exact Content.value?_eq_of_ne hq _ _
    · show before.length + 1 + k + blanks.length + _ = before.length + 1 + blanks.length + _ + k
      omega

/-! ## Moved lexers -/

namespace Lexer

/-- `lx'` stands `k` bytes further on than `lx`, a lexer of `input`, and has counted `m`
    more placeholders.  The same bytes are left, and both are switched alike. -/
structure Displaced (input : Bytes) (k m : Nat) (lx lx' : Lexer) : Prop where
  isSound : lx.IsSound input
  scanner : lx.scanner.Moved k m lx'.scanner
  shown : lx'.showsComments = lx.showsComments
  isTruncated : lx'.isTruncated = lx.isTruncated

/-- What relates the pulls of two such lexers. -/
structure Pull.Moved (input : Bytes) (k m : Nat) (pull pull' : Pull) : Prop where
  token : pull.1.Moved input k m pull'.1
  position : pull'.2.position = pull.2.position + k
  ordinals : pull'.2.ordinals = pull.2.ordinals + m

/-- What relates the replies of two such lexers. -/
inductive Reply.Moved (input : Bytes) (k m : Nat) : Reply → Reply → Prop
  | done : Reply.Moved input k m .done .done
  /-- The token is moved. -/
  | token {t t' : Token} (h : t.Moved input k m t') : Reply.Moved input k m (.token t) (.token t')
  /-- Each token of the statement is moved. -/
  | statement {ts ts' : List Token} (h : List.Forall₂ (Token.Moved input k m) ts ts') :
      Reply.Moved input k m (.statement (.ok ts)) (.statement (.ok ts'))
  /-- Both statements are refused, and the messages only differ in the position. -/
  | refusal (p : Nat) (text : String) :
      Reply.Moved input k m
        (.statement (.error (.sqlParsing
          ("syntax error at position " ++ toString p ++ " near " ++ text))))
        (.statement (.error (.sqlParsing
          ("syntax error at position " ++ toString (p + k) ++ " near " ++ text))))

/-- What relates the outcomes of two such lexers. -/
structure Outcome.Moved (input : Bytes) (k m : Nat) (o o' : Outcome) : Prop where
  reply : o.reply.Moved input k m o'.reply
  position : o'.lexer.position = o.lexer.position + k
  ordinals : o'.lexer.ordinals = o.lexer.ordinals + m

theorem Course.showsComments_lexer (c : Course) :
    c.lexer.showsComments = c.last.2.showsComments := by
  unfold Course.lexer
  split
  · rfl
  · rfl

theorem Course.isTruncated_lexer (c : Course) : c.lexer.isTruncated = c.last.2.isTruncated := by
  unfold Course.lexer
  split
  · rfl
  · rfl

namespace Displaced

variable {input : Bytes} {k m : Nat} {lx lx' : Lexer}

theorem scan (h : lx.Displaced input k m lx') :
    lx.scan.1.Moved input k m lx'.scan.1 ∧ lx.scan.2.Displaced input k m lx'.scan.2 := by
  by_cases ht : lx.isTruncated = true
  · -- The statement was ended, so both are at the end where they stand.
    have hdone : lx.IsDone := .inl ht
    have hdone' : lx'.IsDone := .inl (h.isTruncated.trans ht)
    rw [hdone.scan, hdone'.scan]
    refine ⟨⟨rfl, h.scanner.position, ?_⟩, h⟩
    rw [Token.isQuestion_eq_false (by simp [endToken]), if_neg Bool.false_ne_true]
    rfl
  · have ht : lx.isTruncated = false := Bool.eq_false_iff.2 ht
    obtain ⟨before, hinput, hposition⟩ := h.isSound.exists_before
    obtain ⟨htoken, hscanner⟩ := Scanner.next_moved hposition h.scanner
    have hsound := (IsSound.isKept input).scan lx h.isSound
    rw [← hinput] at htoken
    rw [scan_of_not_isTruncated ht] at hsound ⊢
    rw [scan_of_not_isTruncated (h.isTruncated.trans ht)]
    exact ⟨htoken, hsound, hscanner, h.shown, h.isTruncated⟩

theorem lockstep :
    Lockstep (fun _ => True) (Displaced input k m) (Token.Moved input k m) where
  within _ _ := trivial
  scan h _ := h.scan
  kind h := h.kind
  shown h := h.shown
  lastText h _ := ⟨(IsSound.isKept input).lastText _ _ h.isSound, h.scanner, h.shown, h.isTruncated⟩

/-- A malformed token has its text wherever it stands, so that the messages only differ
    in the position. -/
theorem readStatement_refused (h : lx.Displaced input k m lx')
    (hmalformed : lx.readStatement.last.1.isMalformed = true) :
    Reply.Moved input k m (.statement lx.readStatement.result)
      (.statement lx'.readStatement.result) := by
  have hlast := (lockstep.readStatement h trivial).last
  have hkind := Token.isMalformed_iff.1 hmalformed
  have hmalformed' : lx'.readStatement.last.1.isMalformed = true :=
    Token.isMalformed_iff.2 (hlast.1.kind.trans hkind)
  have hvalue := hlast.1.value
  rw [Token.isQuestion_eq_false (by simp [hkind]), if_neg Bool.false_ne_true] at hvalue
  have htext : lx'.readStatement.last.1.text = lx.readStatement.last.1.text := by
    rw [Token.text, Token.text, Token.bytes, Token.bytes, hvalue]
  have hplace : lx'.readStatement.last.2.position = lx.readStatement.last.2.position + k :=
    hlast.2.scanner.position
  have hmessage : (Scanned.ofPull lx'.readStatement.last).diagnosis =
      "syntax error at position " ++ toString (lx.readStatement.last.2.position + k) ++
        " near " ++ lx.readStatement.last.1.text := by
    rw [← hplace, ← htext]
    rfl
  rw [Course.result, Course.error?, if_pos hmalformed, malformedDiagnosis_eq hmalformed,
    Course.result, Course.error?, if_pos hmalformed', malformedDiagnosis_eq hmalformed', hmessage]
  exact .refusal _ _

theorem readStatement (h : lx.Displaced input k m lx') :
    Reply.Moved input k m (.statement lx.readStatement.result)
      (.statement lx'.readStatement.result) := by
  by_cases hmalformed : lx.readStatement.last.1.isMalformed = true
  · exact h.readStatement_refused hmalformed
  · have hpaired := lockstep.readStatement h trivial
    have hmalformed' : ¬lx'.readStatement.last.1.isMalformed = true := by
      rw [Token.isMalformed, hpaired.last.1.kind]
      exact hmalformed
    rw [Course.result, Course.error?, if_neg hmalformed, Course.result, Course.error?,
      if_neg hmalformed']
    exact .statement (hpaired.tokens fun _ _ hpull => hpull.1)

/-- **One command**: the reply is moved, and so is the lexer. -/
theorem perform (h : lx.Displaced input k m lx') (command : Command) :
    (lx.perform command).Moved input k m (lx'.perform command) ∧
      (lx.perform command).lexer.Displaced input k m (lx'.perform command).lexer := by
  have hsound : (lx.perform command).lexer.IsSound input :=
    h.isSound.of_passes (lx.perform_passes command)
  have houtcome : ∀ {o o' : Outcome}, o.reply.Moved input k m o'.reply →
      o.lexer.Displaced input k m o'.lexer → o.Moved input k m o' :=
    fun hreply hlexer => ⟨hreply, hlexer.scanner.position, hlexer.scanner.ordinals⟩
  cases command with
  | next =>
    obtain ⟨htoken, hafter⟩ := lockstep.next h trivial
    exact ⟨houtcome (.token htoken) hafter, hafter⟩
  | scan =>
    obtain ⟨htoken, hafter⟩ := h.scan
    exact ⟨houtcome (.token htoken) hafter, hafter⟩
  | tokenize =>
    have hlast := (lockstep.readStatement h trivial).last.2
    have hafter : lx.readStatement.lexer.Displaced input k m lx'.readStatement.lexer := by
      refine ⟨hsound, ?_, ?_, ?_⟩
      · rw [Course.scanner_lexer, Course.scanner_lexer]
        exact hlast.scanner
      · rw [Course.showsComments_lexer, Course.showsComments_lexer]
        exact hlast.shown
      · rw [Course.isTruncated_lexer, Course.isTruncated_lexer]
        exact hlast.isTruncated
    exact ⟨houtcome h.readStatement hafter, hafter⟩
  | truncate =>
    have hafter : lx.truncate.Displaced input k m lx'.truncate := ⟨hsound, h.scanner, h.shown, rfl⟩
    exact ⟨houtcome .done hafter, hafter⟩
  | comments shown =>
    have hafter : (lx.showComments shown).Displaced input k m (lx'.showComments shown) :=
      ⟨hsound, h.scanner, rfl, h.isTruncated⟩
    exact ⟨houtcome .done hafter, hafter⟩
  | report message =>
    have hafter : (lx.report message).Displaced input k m (lx'.report message) :=
      ⟨hsound, h.scanner, h.shown, h.isTruncated⟩
    exact ⟨houtcome .done hafter, hafter⟩

/-- **To the end**: the pulls of any view are moved. -/
theorem wholeCourse (h : lx.Displaced input k m lx') (view : View) :
    List.Forall₂ (Pull.Moved input k m) (lx.wholeCourse view).pulls
      (lx'.wholeCourse view).pulls := by
  have hpaired : (lx.wholeCourse view).Paired
      (Lockstep.Together (Displaced input k m) (Token.Moved input k m)) (lx'.wholeCourse view) :=
    lockstep.course view (fun _ _ _ => rfl) h trivial
  apply hpaired.pulls.imp
  rintro pull pull' ⟨htoken, hafter⟩
  exact ⟨htoken, hafter.scanner.position, hafter.scanner.ordinals⟩

end Displaced

/-! ## From a place on -/

/-- A lexer of `a ++ b` that stands before `b` is displaced from a fresh one of `b`. -/
theorem IsAt.displaced {a b : Bytes} {s : Standing} {lx : Lexer} (h : lx.IsAt (a ++ b) s)
    (hplace : lx.position = a.length + 1) :
    ((start b).showComments s.shown).Displaced b a.length lx.ordinals lx := by
  have hrest := h.stands.isSound.rest
  rw [hplace, Nat.add_sub_cancel, List.drop_left] at hrest
  refine ⟨.start b s.shown, ⟨hrest, ?_, (Nat.zero_add _).symm⟩, h.shown, h.isTruncated⟩
  exact hplace.trans (Nat.add_comm _ _)

/-- **Suffixes**: let a lexer of `a ++ b` stand right behind `a` after some scans, with
    so many placeholders counted.  What it hands out from there on, in any view and to
    any session, is what a fresh lexer of `b` hands out, moved by the length of `a`, with
    that many added to the number in the name of every `?`.  Statements are refused
    alike, and as many placeholders are counted from there on. -/
theorem session_suffix (a b : Bytes) (shown : Bool) (n : Nat)
    (h : (((start (a ++ b)).showComments shown).scans n).position = a.length + 1) :
    let fresh := (start b).showComments shown
    let lx := ((start (a ++ b)).showComments shown).scans n
    (∀ view, List.Forall₂ (Pull.Moved b a.length lx.ordinals) (fresh.wholeCourse view).pulls
      (lx.wholeCourse view).pulls) ∧
    ∀ commands, List.Forall₂ (Outcome.Moved b a.length lx.ordinals) (fresh.session commands)
      (lx.session commands) := by
  intro fresh lx
  have hstart : fresh.Displaced b a.length lx.ordinals lx :=
    ((isAt_start (a ++ b) shown).scans n).displaced h
  refine ⟨hstart.wholeCourse, fun commands => ?_⟩
  exact session_forall₂ (fun _ _ => trivial) (fun command h _ => h.perform command) hstart trivial

/-- The `<` ends before a sign that it does not take, and the `?` behind it is the second
    one of the input.  The name that is written `:v1` stays. -/
theorem session_suffix_sign :
    let a := Utf8.ofString "?<"
    let b := Utf8.ofString "-?/*?*/:v1'it"
    let fresh := (start b).showComments false
    let lx := ((start (a ++ b)).showComments false).scans 2
    lx.position = a.length + 1 ∧
    List.Forall₂ (Outcome.Moved b a.length 1) (fresh.session [.scan, .next, .tokenize])
      (lx.session [.scan, .next, .tokenize]) ∧
    (fresh.scan.2.next.1, lx.scan.2.next.1) =
      (⟨.placeholder, some (Utf8.ofString ":v1"), 2⟩,
        ⟨.placeholder, some (Utf8.ofString ":v2"), 4⟩) := by
  intro a b fresh lx
  have hplace : lx.position = a.length + 1 := by decide +kernel
  have hordinals : lx.ordinals = 1 := by decide +kernel
  have hsession := (session_suffix a b false 2 hplace).2 [.scan, .next, .tokenize]
  refine ⟨hplace, ?_, by decide +kernel⟩
  rw [← hordinals]
  exact hsession

end Lexer

end SqlTokens
