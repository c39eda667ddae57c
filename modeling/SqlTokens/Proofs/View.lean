import Mathlib.Order.Bounds.Basic
import SqlTokens.Lexer.Session
import SqlTokens.Proofs.Canonical
import SqlTokens.Proofs.Diagnosis
import SqlTokens.Proofs.Safety

/-! # Sessions are views of the canonical run

    Whatever a lexer is asked, in whatever order, it goes along the canonical run of
    its input and shows parts of it.  Whether comments are shown decides which tokens
    are handed out, and nothing else: not where the lexer goes, not what the
    placeholders are called, not what is refused.

    * **What is allowed**: `Lexer.Step` — the reply to each command, and where the
      lexer stands after it.
    * **One command**: `Lexer.IsAt.perform` — every lexer on the run makes such a step.
    * **Whole sessions**: `Lexer.session_follows`. -/

namespace SqlTokens

namespace Lexer

/-! ## Steps along the run -/

/-- Where a lexer stands on the canonical run, and whether it shows comments. -/
structure Standing where
  /-- How many tokens of the run were passed. -/
  index : Nat
  shown : Bool

/-- **What is allowed**: how a lexer of `input` replies to a command, and where it
    stands after that. -/
inductive Step (input : Bytes) : Standing → Command → Reply → Standing → Prop
  /-- A scan hands out the token that comes next. -/
  | scan (i : Nat) (shown : Bool) :
      Step input ⟨i, shown⟩ .scan (.token (tokenAt input i).token) ⟨i + 1, shown⟩
  /-- Otherwise the first token is handed out that is shown. -/
  | next {i k : Nat} {shown : Bool}
      (hk : IsLeast {k | i ≤ k ∧ (tokenAt input k).isShown shown = true} k) :
      Step input ⟨i, shown⟩ .next (.token (tokenAt input k).token) ⟨k + 1, shown⟩
  /-- If the end comes before any malformed token, the rest of the statement is handed
      out as far as it is shown. -/
  | tokenize {i k : Nat} {shown : Bool}
      (hk : IsLeast {k | i ≤ k ∧ (tokenAt input k).endsReading = true} k)
      (hend : (tokenAt input k).token.isEnd = true) :
      Step input ⟨i, shown⟩ .tokenize
        (.statement (.ok
          (((tokensFrom input i (k + 1 - i)).filter (Scanned.isShown shown)).map Scanned.token)))
        ⟨k + 1, shown⟩
  /-- If a malformed token comes first, the statement is refused right behind it. -/
  | refuse {i k : Nat} {shown : Bool}
      (hk : IsLeast {k | i ≤ k ∧ (tokenAt input k).endsReading = true} k)
      (hmalformed : (tokenAt input k).token.isMalformed = true) :
      Step input ⟨i, shown⟩ .tokenize
        (.statement (.error (.sqlParsing (tokenAt input k).diagnosis))) ⟨k + 1, shown⟩
  /-- Comments are shown from here on, or hidden. -/
  | comments (i : Nat) (shown shown' : Bool) :
      Step input ⟨i, shown⟩ (.comments shown') .done ⟨i, shown'⟩
  /-- A message changes nothing. -/
  | report (i : Nat) (shown : Bool) (message : String) :
      Step input ⟨i, shown⟩ (.report message) .done ⟨i, shown⟩

/-- A session goes along the run.  After each command the lexer has as many bytes and
    placeholders behind it as the canonical run has there, and it never goes back. -/
inductive Follows (input : Bytes) : Standing → List Command → List Outcome → Prop
  | nil (s : Standing) : Follows input s [] []
  | cons {s s' : Standing} {command : Command} {outcome : Outcome}
      {more : List Command} {outcomes : List Outcome}
      (hstep : Step input s command outcome.reply s')
      (hle : s.index ≤ s'.index)
      (hposition : outcome.lexer.position = ((start input).scans s'.index).position)
      (hordinals : outcome.lexer.ordinals = ((start input).scans s'.index).ordinals)
      (hmore : Follows input s' more outcomes) :
      Follows input s (command :: more) (outcome :: outcomes)

theorem Step.index_le {input : Bytes} {s s' : Standing} {command : Command} {reply : Reply}
    (h : Step input s command reply s') : s.index ≤ s'.index := by
  cases h with
  | scan i shown => exact Nat.le_succ i
  | next hk => exact Nat.le_succ_of_le hk.1.1
  | tokenize hk hend => exact Nat.le_succ_of_le hk.1.1
  | refuse hk hmalformed => exact Nat.le_succ_of_le hk.1.1
  | comments i shown shown' => exact Nat.le_refl i
  | report i shown message => exact Nat.le_refl i

/-! ## Lexers that stand somewhere -/

/-- The lexer stands there, and its statement was not ended before its end. -/
structure IsAt (input : Bytes) (s : Standing) (lx : Lexer) : Prop where
  stands : lx.StandsAt input s.index
  shown : lx.showsComments = s.shown
  isTruncated : lx.isTruncated = false

theorem isSound_scans (input : Bytes) (n : Nat) : ((start input).scans n).IsSound input := by
  induction n with
  | zero => exact .start input false
  | succ n ih => exact (IsSound.isKept input).scan _ ih

theorem StandsAt.isSound {input : Bytes} {i : Nat} {lx : Lexer} (h : lx.StandsAt input i) :
    lx.IsSound input := by
  apply (isSound_scans input i).of_passes
  rw [h]
  exact .refl _

/-- No pull changes what is switched by commands. -/
theorem isKept_switches (shown : Bool) :
    IsKept fun lx => lx.showsComments = shown ∧ lx.isTruncated = false where
  scan lx h := ⟨lx.showsComments_scan.trans h.1, lx.isTruncated_scan.trans h.2⟩
  lastText _ _ h := h

namespace IsAt

variable {input : Bytes} {s : Standing} {lx : Lexer}

theorem scan (h : lx.IsAt input s) :
    lx.scan.1 = (tokenAt input s.index).token ∧ lx.scan.2.IsAt input ⟨s.index + 1, s.shown⟩ := by
  obtain ⟨htoken, hstands⟩ := h.stands.scan h.isTruncated
  refine ⟨congrArg Scanned.token htoken, hstands, ?_, ?_⟩
  · exact lx.showsComments_scan.trans h.shown
  · exact lx.isTruncated_scan.trans h.isTruncated

theorem scans (h : lx.IsAt input s) (n : Nat) :
    (lx.scans n).IsAt input ⟨s.index + n, s.shown⟩ := by
  induction n with
  | zero => exact h
  | succ n ih => exact ih.scan.2

/-- The first token that is shown. -/
theorem next (h : lx.IsAt input s) :
    ∃ k, IsLeast {k | s.index ≤ k ∧ (tokenAt input k).isShown s.shown = true} k ∧
      lx.next.1 = (tokenAt input k).token ∧ lx.next.2.IsAt input ⟨k + 1, s.shown⟩ := by
  obtain ⟨n, -, hcomments, hlast, hnext⟩ := lx.exists_next_eq_scans
  have htoken : ∀ j, (lx.scans j).scan.1 = (tokenAt input (s.index + j)).token := by
    intro j
    exact (h.scans j).scan.1
  have hafter := h.scans (n + 1)
  rw [hnext]
  refine ⟨s.index + n, ⟨⟨Nat.le_add_right _ _, ?_⟩, ?_⟩, htoken n, ?_⟩
  · rw [htoken, h.shown] at hlast
    by_cases hkind : (tokenAt input (s.index + n)).token.kind = .comment
    · rw [Scanned.isShown, hlast hkind, Bool.true_or]
    · simp [Scanned.isShown, hkind]
  · -- The tokens before are hidden comments.
    rintro j ⟨hj, hshown⟩
    by_contra hlt
    obtain ⟨d, rfl⟩ := Nat.exists_eq_add_of_le hj
    obtain ⟨hkind, hhidden⟩ := hcomments d (by omega)
    rw [htoken] at hkind
    rw [h.shown] at hhidden
    simp [Scanned.isShown, hkind, hhidden] at hshown
  · exact ⟨hafter.stands, hafter.shown, hafter.isTruncated⟩

/-- The tokens through the first one that ends a reading. -/
theorem throughMalformed_stream (h : lx.IsAt input s) {k : Nat}
    (hk : IsLeast {k | s.index ≤ k ∧ (tokenAt input k).endsReading = true} k) :
    throughMalformed lx.stream = tokensFrom input s.index (k - s.index) ++ [tokenAt input k] := by
  obtain ⟨⟨hle, hends⟩, hleast⟩ := hk
  have hplace : s.index + (k - s.index) = k := by omega
  -- No token before ends the reading.
  have hbefore : ∀ j, s.index ≤ j → j < s.index + (k - s.index) →
      (tokenAt input j).endsReading = false := by
    intro j hj hjk
    by_contra hyes
    have hkj : k ≤ j := hleast ⟨hj, by simpa using hyes⟩
    omega
  have hrest := h.stands.stream_eq_append h.isTruncated (n := k - s.index) fun j hj hjk =>
    (Bool.or_eq_false_iff.1 (hbefore j hj hjk)).1
  have hlast := h.scans (k - s.index)
  rw [hplace] at hlast
  rw [hrest, hlast.stands.stream_eq hlast.isTruncated, throughMalformed, throughFirst_append,
    throughFirst]
  · by_cases hmalformed : (tokenAt input k).token.isMalformed = true
    · rw [if_pos hmalformed]
    · -- Then it is the end, and nothing is left behind it.
      have hend : (tokenAt input k).token.isEnd = true := by
        simpa [Scanned.endsReading, hmalformed] using hends
      rw [if_neg hmalformed, if_pos hend, throughFirst]
  · intro x hx
    obtain ⟨j, hj, hjk, rfl⟩ := mem_tokensFrom.1 hx
    exact (Bool.or_eq_false_iff.1 (hbefore j hj hjk)).2

/-- A reading ends behind the first token that ends one, and hands out what is shown. -/
theorem readStatement (h : lx.IsAt input s) :
    ∃ k, IsLeast {k | s.index ≤ k ∧ (tokenAt input k).endsReading = true} k ∧
      Scanned.ofPull lx.readStatement.last = tokenAt input k ∧
      lx.readStatement.pulls.map Scanned.ofPull =
        (tokensFrom input s.index (k + 1 - s.index)).filter (Scanned.isShown s.shown) ∧
      lx.readStatement.last.2.IsAt input ⟨k + 1, s.shown⟩ := by
  obtain ⟨k, hk⟩ := exists_isLeast_tokenAt input s.index fun _ => Scanned.endsReading_of_isEnd
  have hthrough := h.throughMalformed_stream hk
  have hlast := ofPull_last_eq hthrough hk.1.2
  obtain ⟨hshown, htruncated⟩ := (isKept_switches s.shown).courseOnto .shown Token.isMalformed []
    lx ⟨h.shown, h.isTruncated⟩
  refine ⟨k, hk, hlast, ?_, ?_, hshown, htruncated⟩
  · rw [lx.readStatement_pulls, hthrough, tokensFrom_through input hk.1.1, h.shown]
  · -- The lexer is sound, and has as much behind it as the run.
    have hsound : lx.readStatement.last.2.IsSound input :=
      (IsSound.isKept input).courseOnto .shown Token.isMalformed [] lx h.stands.isSound
    exact hsound.scanner_eq (isSound_scans input (k + 1)) (congrArg Scanned.stop hlast)
      (congrArg Scanned.ordinals hlast)

/-- The outcome of a reading depends on the first token that ends one. -/
theorem tokenize (h : lx.IsAt input s) :
    ∃ k, IsLeast {k | s.index ≤ k ∧ (tokenAt input k).endsReading = true} k ∧
      lx.tokenize = (if (tokenAt input k).token.isMalformed
        then .error (.sqlParsing (tokenAt input k).diagnosis)
        else .ok (((tokensFrom input s.index (k + 1 - s.index)).filter
          (Scanned.isShown s.shown)).map Scanned.token)) ∧
      lx.readStatement.lexer.IsAt input ⟨k + 1, s.shown⟩ := by
  obtain ⟨k, hk, hlast, hpulls, hafter⟩ := h.readStatement
  have htoken : lx.readStatement.last.1 = (tokenAt input k).token := congrArg Scanned.token hlast
  refine ⟨k, hk, ?_, ?_⟩
  · rw [Lexer.tokenize, Course.result, Course.error?, htoken]
    by_cases hmalformed : (tokenAt input k).token.isMalformed = true
    · rw [if_pos hmalformed, if_pos hmalformed, malformedDiagnosis_eq (by rwa [htoken]), hlast]
    · rw [if_neg hmalformed, if_neg hmalformed, Course.tokens_eq, hpulls]
  · -- To remember the message moves nothing.
    unfold Course.lexer
    split
    · exact ⟨hafter.stands, hafter.shown, hafter.isTruncated⟩
    · exact hafter

/-- **One command**: whatever is asked for, the lexer makes an allowed step. -/
theorem perform (h : lx.IsAt input s) {command : Command} (hc : command ≠ .truncate) :
    ∃ s', Step input s command (lx.perform command).reply s' ∧
      (lx.perform command).lexer.IsAt input s' := by
  obtain ⟨i, shown⟩ := s
  cases command with
  | next =>
    obtain ⟨k, hk, htoken, hafter⟩ := h.next
    refine ⟨⟨k + 1, shown⟩, ?_, hafter⟩
    show Step input _ _ (.token lx.next.1) _
    rw [htoken]
    exact .next hk
  | scan =>
    obtain ⟨htoken, hafter⟩ := h.scan
    refine ⟨⟨i + 1, shown⟩, ?_, hafter⟩
    show Step input _ _ (.token lx.scan.1) _
    rw [htoken]
    exact .scan i shown
  | tokenize =>
    obtain ⟨k, hk, hresult, hafter⟩ := h.tokenize
    refine ⟨⟨k + 1, shown⟩, ?_, hafter⟩
    show Step input _ _ (.statement lx.tokenize) _
    rw [hresult]
    by_cases hmalformed : (tokenAt input k).token.isMalformed = true
    · rw [if_pos hmalformed]
      exact .refuse hk hmalformed
    · have hend : (tokenAt input k).token.isEnd = true := by
        simpa [Scanned.endsReading, hmalformed] using hk.1.2
      rw [if_neg hmalformed]
      exact .tokenize hk hend
  | truncate => exact absurd rfl hc
  | comments shown' => exact ⟨⟨i, shown'⟩, .comments i shown shown', h.stands, rfl, h.isTruncated⟩
  | report message =>
    exact ⟨⟨i, shown⟩, .report i shown message, h.stands, h.shown, h.isTruncated⟩

/-! ## Whole sessions -/

theorem session (h : lx.IsAt input s) {commands : List Command} (hc : .truncate ∉ commands) :
    Follows input s commands (lx.session commands) := by
  -- By induction on the commands: the step, and then the session from behind it.
  induction commands generalizing lx s with
  | nil => exact .nil s
  | cons command more ih =>
    obtain ⟨hne, hmore⟩ := not_or.1 (List.mem_cons.not.1 hc)
    obtain ⟨s', hstep, hafter⟩ := h.perform (Ne.symm hne)
    exact .cons hstep hstep.index_le hafter.stands.position_eq hafter.stands.ordinals_eq
      (ih hafter hmore)

end IsAt

theorem isAt_start (input : Bytes) (shown : Bool) :
    ((start input).showComments shown).IsAt input ⟨0, shown⟩ :=
  ⟨rfl, rfl, rfl⟩

/-- To hide comments is to leave them out of the outcome. -/
theorem tokenize_hidden (input : Bytes) :
    ((start input).showComments false).tokenize =
      ((start input).showComments true).tokenize.map (List.filter fun t => t.kind != .comment) := by
  obtain ⟨k, hk, hresult, -⟩ := (isAt_start input false).tokenize
  obtain ⟨k', hk', hresult', -⟩ := (isAt_start input true).tokenize
  -- Both readings end with the same token.
  obtain rfl : k = k' := hk.unique hk'
  rw [hresult, hresult']
  by_cases hmalformed : (tokenAt input k).token.isMalformed = true
  · rw [if_pos hmalformed, if_pos hmalformed]
    rfl
  · rw [if_neg hmalformed, if_neg hmalformed, Except.map, List.filter_map, List.filter_filter]
    have hshown : ∀ x : Scanned, (x.token.kind != .comment && x.isShown true) = x.isShown false :=
      fun x => Bool.and_true _
    simp only [Function.comp_def, hshown]

/-- **Views**: the canonical run is the scan stream, and then its end again and again.
    A session that does not end the statement early goes along the run, step by step.
    A statement is refused with hidden comments if and as it is refused with shown
    ones, and else has the same tokens but for the comments. -/
theorem session_follows (input : Bytes) (shown : Bool) (commands : List Command)
    (h : Command.truncate ∉ commands) :
    (∃ n q, scanned input = tokensFrom input 0 (n + 1) ∧
      ∀ i, n ≤ i → tokenAt input i = .ending (input.length + 1) q) ∧
    Follows input ⟨0, shown⟩ commands (((start input).showComments shown).session commands) ∧
    ((start input).showComments false).tokenize =
      ((start input).showComments true).tokenize.map (List.filter fun t => t.kind != .comment) :=
  ⟨scanned_eq_tokensFrom input, (isAt_start input shown).session h, tokenize_hidden input⟩

/-- A comment that is passed over, one that is shown, and a refusal between two `?`. -/
theorem session_follows_mixed :
    let input := Utf8.ofString "a/*?*/?/**/!?"
    let commands := [.next, .next, .comments true, .report "halt", .tokenize, .scan, .tokenize]
    Command.truncate ∉ commands ∧
    Follows input ⟨0, false⟩ commands (((start input).showComments false).session commands) ∧
    (((start input).showComments false).session commands).map
        (fun outcome => (outcome.lexer.position, outcome.lexer.ordinals)) =
      [(2, 0), (8, 1), (8, 1), (8, 1), (13, 1), (14, 2), (14, 2)] := by
  intro input commands
  have h : Command.truncate ∉ commands := by decide
  exact ⟨h, (session_follows input false commands h).2.1, by decide +kernel⟩

end Lexer

end SqlTokens
