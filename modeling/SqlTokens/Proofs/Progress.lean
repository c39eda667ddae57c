import Mathlib.Data.List.Forall2
import SqlTokens.Proofs.Canonical
import SqlTokens.Proofs.Diagnosis
import SqlTokens.Proofs.Safety

/-! # Scanning makes progress and ends

    Each token but the end takes at least one byte, and no byte comes back.  So the
    bytes that are left bound whatever a lexer can still be asked for, in whatever
    order: the comments that are passed over, the tokens that are handed out, the
    length of a statement.

    * **One pull**: `Lexer.length_pull` — what it hands out is paid for with bytes.
    * **Whole sessions**: `Lexer.length_pulled` — the same, over all commands.
    * **The end**: `Lexer.IsDone.session` — behind the end nothing moves any more.
    * **The result**: `Lexer.scanning_ends`. -/

namespace SqlTokens

theorem Scanner.Passes.remaining_le {s s' : Scanner} (h : s.Passes s') :
    s'.remaining ≤ s.remaining := by
  obtain ⟨x, hrest, -⟩ := h
  rw [remaining, remaining, hrest, List.length_append]
  exact Nat.le_add_left _ _

/-- With fewer bytes left the position is further on. -/
theorem Scanner.Passes.position_lt {s s' : Scanner} (h : s.Passes s')
    (hlt : s'.remaining < s.remaining) : s.position < s'.position := by
  obtain ⟨x, hrest, hposition, -⟩ := h
  rw [remaining, remaining, hrest, List.length_append] at hlt
  omega

namespace Lexer

/-- The states into which a session can bring a lexer of `input`. -/
inductive Reachable (input : Bytes) : Lexer → Prop
  | start (shown : Bool) : Reachable input ((Lexer.start input).showComments shown)
  | perform {lx : Lexer} (h : Reachable input lx) (command : Command) :
      Reachable input (lx.perform command).lexer

theorem Reachable.isSound {input : Bytes} {lx : Lexer} (h : lx.Reachable input) :
    lx.IsSound input := by
  induction h with
  | start shown => exact .start input shown
  | @perform lx h command ih => exact ih.of_passes (lx.perform_passes command)

/-- The position of a sound lexer tells how many bytes are left. -/
theorem IsSound.remaining_eq {input : Bytes} {lx : Lexer} (h : lx.IsSound input) :
    lx.remaining = input.length + 1 - lx.position := by
  have hlength := congrArg List.length h.rest
  have hpos := h.position_pos
  rw [List.length_drop] at hlength
  show lx.scanner.cursor.rest.length = _
  omega

/-! ## What a pull takes -/

/-- **Progress**: a scan hands out the end, or the position increases. -/
theorem isEnd_or_position_lt (lx : Lexer) :
    lx.scan.1.isEnd = true ∨ lx.position < lx.scan.2.position := by
  by_cases h : lx.scan.1.isEnd = true
  · exact .inl h
  · apply Or.inr
    apply lx.scan_passes.position_lt
    exact lx.remaining_scan_lt fun hkind => h (Token.isEnd_iff.2 hkind)

/-- The tokens that are not the end. -/
def proper (tokens : List Token) : List Token :=
  tokens.filter fun t => !t.isEnd

@[simp] theorem proper_nil : proper [] = [] := rfl

theorem proper_append (xs ys : List Token) : proper (xs ++ ys) = proper xs ++ proper ys :=
  List.filter_append xs ys

theorem length_proper_singleton (t : Token) :
    (proper [t]).length = if t.isEnd then 0 else 1 := by
  cases h : t.isEnd with
  | true => simp [proper, h]
  | false => simp [proper, h]

/-- What is left after a pull, together with its token, was left before. -/
theorem length_pull (lx : Lexer) (view : View) :
    (proper [(lx.pull view).1]).length + (lx.pull view).2.remaining ≤ lx.remaining := by
  rw [length_proper_singleton]
  by_cases h : (lx.pull view).1.isEnd = true
  · -- The end may take blanks.
    have hpasses := (isKept_passes lx.scanner).pull view lx (.refl _)
    rw [if_pos h, Nat.zero_add]
    exact hpasses.remaining_le
  · have hlt := lx.remaining_pull_lt view fun hkind => h (Token.isEnd_iff.2 hkind)
    rw [if_neg h]
    omega

/-! ## What a course takes -/

theorem length_courseOnto (view : View) (stops : Token → Bool) (before : List Pull) (lx : Lexer) :
    (proper (courseOnto view stops before lx).tokens).length +
        (courseOnto view stops before lx).last.2.remaining ≤
      (proper (before.reverse.map Prod.fst)).length + lx.remaining := by
  -- By induction on the pulls of the course.
  induction before, lx using courseOnto.induct view stops with
  | case1 before lx token after hpull hends =>
    have hone := lx.length_pull view
    rw [hpull] at hone
    rw [courseOnto_of_pull hpull, if_pos hends, Course.tokens, Course.pulls, List.map_append,
      proper_append, List.length_append, Nat.add_assoc]
    exact Nat.add_le_add_left hone _
  | case2 before lx token after hpull hends ih =>
    have hone := lx.length_pull view
    rw [hpull] at hone
    rw [courseOnto_of_pull hpull, if_neg hends]
    rw [List.reverse_cons, List.map_append, proper_append, List.length_append] at ih
    exact ih.trans (by rw [Nat.add_assoc]; exact Nat.add_le_add_left hone _)

/-- Only the last token of a course may be the end. -/
theorem isEnd_of_mem_courseOnto (view : View) (stops : Token → Bool) (before : List Pull)
    (lx : Lexer) (hbefore : ∀ pull ∈ before, pull.1.isEnd = false) :
    ∀ pull ∈ (courseOnto view stops before lx).before, pull.1.isEnd = false := by
  -- By induction on the pulls of the course.
  induction before, lx using courseOnto.induct view stops with
  | case1 before lx token after hpull hends =>
    intro pull hmem
    rw [courseOnto_of_pull hpull, if_pos hends] at hmem
    exact hbefore pull (List.mem_reverse.1 hmem)
  | case2 before lx token after hpull hends ih =>
    have htoken : token.isEnd = false := by
      by_contra hyes
      exact hends (.inl (Token.isEnd_iff.1 (by simpa using hyes)))
    rw [courseOnto_of_pull hpull, if_neg hends]
    apply ih
    intro pull hmem
    rcases List.mem_cons.1 hmem with rfl | hmem
    · exact htoken
    · exact hbefore pull hmem

theorem isEnd_of_mem_before {view : View} {stops : Token → Bool} {lx : Lexer} {pull : Pull}
    (h : pull ∈ (lx.course view stops).before) : pull.1.isEnd = false := by
  apply isEnd_of_mem_courseOnto view stops [] lx ?_ pull h
  intro pull hmem
  exact absurd hmem List.not_mem_nil

/-- A course has no more pulls than there are bytes left, and one for the end. -/
theorem length_pulls_le (lx : Lexer) (view : View) (stops : Token → Bool) :
    (lx.course view stops).pulls.length ≤ lx.remaining + 1 := by
  have hcourse := length_courseOnto view stops [] lx
  have hbefore : proper ((lx.course view stops).before.map Prod.fst) =
      (lx.course view stops).before.map Prod.fst := by
    apply List.filter_eq_self.2
    intro t ht
    obtain ⟨pull, hpull, rfl⟩ := List.mem_map.1 ht
    rw [isEnd_of_mem_before hpull]
    rfl
  change (proper (lx.course view stops).tokens).length + _ ≤ _ at hcourse
  rw [Course.tokens, Course.pulls, List.map_append, proper_append, hbefore, List.length_append,
    List.length_map] at hcourse
  simp only [List.reverse_nil, List.map_nil, proper_nil, List.length_nil, Nat.zero_add] at hcourse
  rw [Course.pulls, List.length_append, List.length_singleton]
  omega

/-! ## What a session takes -/

/-- The tokens that a command pulls, those of a statement that is refused among them. -/
def pulledBy (lx : Lexer) : Command → List Token
  | .next => [lx.next.1]
  | .scan => [lx.scan.1]
  | .tokenize => lx.readStatement.tokens
  | _ => []

/-- The tokens that a session pulls. -/
def pulled (lx : Lexer) : List Command → List Token
  | [] => []
  | command :: more => lx.pulledBy command ++ (lx.perform command).lexer.pulled more

/-- **One command**: what is left after it, together with what it pulls, was left before. -/
theorem length_pulledBy (lx : Lexer) (command : Command) :
    (proper (lx.pulledBy command)).length + (lx.perform command).lexer.remaining ≤
      lx.remaining := by
  cases command with
  | next => exact lx.length_pull .shown
  | scan => exact lx.length_pull .everything
  | tokenize =>
    have hcourse := length_courseOnto .shown Token.isMalformed [] lx
    simp only [List.reverse_nil, List.map_nil, proper_nil, List.length_nil,
      Nat.zero_add] at hcourse
    show (proper lx.readStatement.tokens).length + lx.readStatement.lexer.scanner.remaining ≤ _
    rw [Course.scanner_lexer]
    exact hcourse
  | truncate => exact Nat.le_of_eq (Nat.zero_add _)
  | comments shown => exact Nat.le_of_eq (Nat.zero_add _)
  | report message => exact Nat.le_of_eq (Nat.zero_add _)

/-- **Whole sessions**: no session pulls more tokens than there are bytes left. -/
theorem length_pulled (lx : Lexer) (commands : List Command) :
    (proper (lx.pulled commands)).length ≤ lx.remaining := by
  induction commands generalizing lx with
  | nil => exact Nat.zero_le _
  | cons command more ih =>
    have hone := lx.length_pulledBy command
    have hmore := ih (lx.perform command).lexer
    rw [pulled, proper_append, List.length_append]
    omega

/-! ## Behind the end -/

namespace IsDone

variable {lx : Lexer}

theorem next (h : lx.IsDone) : lx.next = (lx.endToken, { lx with lastText := none }) := by
  rw [next_eq, h.scan]
  rfl

theorem readStatement (h : lx.IsDone) :
    lx.readStatement = ⟨[], lx.endToken, { lx with lastText := none }⟩ := by
  have hpull : lx.pull .shown = (lx.endToken, { lx with lastText := none }) := h.next
  rw [Lexer.readStatement, course_eq, hpull, if_pos (.inl rfl)]

/-- A command to a lexer that is done moves nothing, and pulls the end at most. -/
theorem perform (h : lx.IsDone) (command : Command) :
    (lx.perform command).lexer.IsDone ∧ (lx.perform command).lexer.scanner = lx.scanner ∧
      (∀ t ∈ lx.pulledBy command, t = lx.endToken) ∧
      (command = .scan ∨ command = .next → (lx.perform command).reply = .token lx.endToken) := by
  have hone : ∀ t ∈ [lx.endToken], t = lx.endToken := fun t ht => List.mem_singleton.1 ht
  have hnone : ∀ t ∈ ([] : List Token), t = lx.endToken :=
    fun t ht => absurd ht List.not_mem_nil
  cases command with
  | next =>
    have hnext : lx.perform .next =
        ⟨.token lx.endToken, { lx with lastText := none }, [.token lx.endToken]⟩ := by
      rw [Lexer.perform, h.next]
    rw [hnext, pulledBy, h.next]
    exact ⟨h, rfl, hone, fun _ => rfl⟩
  | scan =>
    have hscan : lx.perform .scan = ⟨.token lx.endToken, lx, []⟩ := by
      rw [Lexer.perform, h.scan]
    rw [hscan, pulledBy, h.scan]
    exact ⟨h, rfl, hone, fun _ => rfl⟩
  | tokenize =>
    have hlexer : (lx.perform .tokenize).lexer = { lx with lastText := none } := by
      show lx.readStatement.lexer = _
      rw [h.readStatement]
      rfl
    rw [hlexer, pulledBy, h.readStatement]
    exact ⟨h, rfl, hone, fun hc => by simp at hc⟩
  | truncate => exact ⟨.inl rfl, rfl, hnone, fun hc => by simp at hc⟩
  | comments shown => exact ⟨h, rfl, hnone, fun hc => by simp at hc⟩
  | report message => exact ⟨h, rfl, hnone, fun hc => by simp at hc⟩

/-- **The end**: behind it nothing moves, and only the same end is handed out. -/
theorem session (h : lx.IsDone) (later : List Command) :
    List.Forall₂ (fun command outcome => outcome.lexer.position = lx.position ∧
        outcome.lexer.ordinals = lx.ordinals ∧
        (command = .scan ∨ command = .next → outcome.reply = .token lx.endToken))
      later (lx.session later) := by
  -- By induction on the commands, each of which keeps the scanner and with it the end.
  induction later generalizing lx with
  | nil => exact .nil
  | cons command more ih =>
    obtain ⟨hdone, hscanner, -, hreply⟩ := h.perform command
    have hposition : (lx.perform command).lexer.position = lx.position :=
      congrArg Scanner.position hscanner
    have hordinals : (lx.perform command).lexer.ordinals = lx.ordinals :=
      congrArg Scanner.ordinals hscanner
    have hmore := ih hdone
    rw [endToken, hposition, hordinals] at hmore
    exact .cons ⟨hposition, hordinals, hreply⟩ hmore

end IsDone

/-- A lexer that handed out the end to a consumer is done. -/
theorem isDone_of_next {lx : Lexer} (h : lx.next.1.isEnd = true) :
    lx.next.1 = lx.next.2.endToken ∧ lx.next.2.IsDone := by
  obtain ⟨lx', hnext⟩ := lx.exists_next_eq
  rw [hnext] at h ⊢
  exact isDone_of_scan (Token.isEnd_iff.1 h)

theorem isDone_of_pulledBy {lx : Lexer} {command : Command} {t : Token}
    (ht : t ∈ lx.pulledBy command) (h : t.isEnd = true) :
    t = (lx.perform command).lexer.endToken ∧ (lx.perform command).lexer.IsDone := by
  cases command with
  | next =>
    obtain rfl := List.mem_singleton.1 ht
    exact isDone_of_next h
  | scan =>
    obtain rfl := List.mem_singleton.1 ht
    exact isDone_of_scan (Token.isEnd_iff.1 h)
  | tokenize =>
    -- The end is the last token of the reading, so the reading succeeds.
    obtain ⟨pull, hpull, rfl⟩ := List.mem_map.1 ht
    obtain rfl : pull = lx.readStatement.last := by
      rcases List.mem_append.1 hpull with hbefore | hlast
      · exact absurd (h.symm.trans (isEnd_of_mem_before hbefore)) (by decide)
      · exact List.mem_singleton.1 hlast
    have hlexer : (lx.perform .tokenize).lexer = lx.readStatement.last.2 := by
      have hno : lx.readStatement.last.1.isMalformed = false := by
        rw [Token.isMalformed, Token.isEnd_iff.1 h]
        rfl
      show lx.readStatement.lexer = _
      rw [Course.lexer, hno]
      rfl
    obtain ⟨lx', hlast⟩ := exists_last_eq .shown Token.isMalformed lx
    have hpull' : lx.readStatement.last = lx'.next := hlast
    rw [hlexer]
    rw [hpull'] at h ⊢
    exact isDone_of_next h
  | truncate => exact absurd ht List.not_mem_nil
  | comments shown => exact absurd ht List.not_mem_nil
  | report message => exact absurd ht List.not_mem_nil

/-! ## The result -/

/-- **Scanning ends**: let a session have brought a lexer somewhere, and count the bytes
    that are left.  A scan hands out the end or goes further.  No more comments are
    passed over, no more tokens are pulled, malformed ones among them, and no statement
    has more tokens before its end than there are bytes.  Once the end was handed out,
    nothing moves any more, and whoever asks for a token gets the same end. -/
theorem scanning_ends {input : Bytes} {lx : Lexer} (h : lx.Reachable input) :
    let left := input.length + 1 - lx.position
    (lx.scan.1.isEnd = true ∨ lx.position < lx.scan.2.position) ∧
    (∃ k, k ≤ left ∧
      (∀ j, j < k → (lx.scans j).scan.1.kind = .comment ∧ lx.showsComments = false) ∧
      ((lx.scans k).scan.1.kind = .comment → lx.showsComments = true) ∧
      lx.next = ((lx.scans k).scan.1,
        { lx.scans (k + 1) with lastText := (lx.scans k).scan.1.value })) ∧
    lx.readStatement.pulls.length ≤ left + 1 ∧
    (∀ commands, ((lx.pulled commands).filter fun t => !t.isEnd).length ≤ left) ∧
    (∀ tokens, lx.tokenize = .ok tokens → tokens.length ≤ left + 1) ∧
    ∀ command t, t ∈ lx.pulledBy command → t.isEnd = true → ∀ later,
      List.Forall₂ (fun command' outcome =>
          outcome.lexer.position = (lx.perform command).lexer.position ∧
          outcome.lexer.ordinals = (lx.perform command).lexer.ordinals ∧
          (command' = .scan ∨ command' = .next → outcome.reply = .token t))
        later ((lx.perform command).lexer.session later) := by
  intro left
  have hleft : lx.remaining = left := h.isSound.remaining_eq
  have hpulls : lx.readStatement.pulls.length ≤ lx.remaining + 1 :=
    lx.length_pulls_le .shown Token.isMalformed
  rw [← hleft]
  refine ⟨lx.isEnd_or_position_lt, lx.exists_next_eq_scans, hpulls, ?_, ?_, ?_⟩
  · intro commands
    exact lx.length_pulled commands
  · -- A statement that is not refused has the tokens of its reading.
    intro tokens htokens
    have hok : lx.readStatement.tokens = tokens := by
      rw [tokenize, Course.result] at htokens
      split at htokens
      · cases htokens
      · exact Except.ok.inj htokens
    rw [← hok, Course.tokens, List.length_map]
    exact hpulls
  · intro command t ht hend later
    obtain ⟨rfl, hdone⟩ := isDone_of_pulledBy ht hend
    exact hdone.session later

/-- Behind a comment and a malformed token the bound is met, and the end stays. -/
theorem scanning_ends_behind_malformed :
    let input := Utf8.ofString "/*?*/$?b"
    let lx := (((start input).showComments false).perform .next).lexer
    let t : Token := ⟨.endOfInput, none, 9⟩
    lx.Reachable input ∧ lx.position = 7 ∧
    (∀ commands, ((lx.pulled commands).filter fun t => !t.isEnd).length ≤ 2) ∧
    ((lx.pulled [.tokenize]).filter fun t => !t.isEnd).length = 2 ∧
    t ∈ lx.pulledBy .tokenize ∧
    ∀ later, List.Forall₂ (fun command' outcome =>
        outcome.lexer.position = 9 ∧ outcome.lexer.ordinals = 1 ∧
        (command' = .scan ∨ command' = .next → outcome.reply = .token t))
      later ((lx.perform .tokenize).lexer.session later) := by
  intro input lx t
  have h : lx.Reachable input := .perform (.start false) .next
  have hposition : lx.position = 7 := by decide +kernel
  have hmem : t ∈ lx.pulledBy .tokenize := by decide +kernel
  have hbehind : (lx.perform .tokenize).lexer.position = 9 ∧
      (lx.perform .tokenize).lexer.ordinals = 1 := by decide +kernel
  obtain ⟨-, -, -, hpulled, -, hend⟩ := scanning_ends h
  refine ⟨h, hposition, ?_, by decide +kernel, hmem, ?_⟩
  · rw [hposition] at hpulled
    exact hpulled
  · intro later
    have hlater := hend .tokenize t hmem rfl later
    rw [hbehind.1, hbehind.2] at hlater
    exact hlater

end Lexer

end SqlTokens
