import SqlTokens.Proofs.Horizon

/-! # Statements that are ended early

    To end a statement where a lexer stands is to cut its input off there: whatever is
    asked for afterwards, the replies are those of a lexer in the same state that has
    nothing left, and so are the messages and all that can be asked of the lexer.  What
    stands behind the place is never looked at.

    * **Another input**: `Lexer.withInput` — a lexer in the same state, of another input.
    * **At the end**: `Lexer.IsDone.perform_eq` — every command is answered at once.
    * **One command**: `Lexer.CutOff.perform` — both lexers answer alike.
    * **Whole sessions**: `Lexer.session_truncate`. -/

namespace SqlTokens.Lexer

/-! ## The same state, and another input -/

/-- The lexer in the state that it is in, but of this input. -/
def withInput (lx : Lexer) (input : Bytes) : Lexer :=
  { lx with scanner := ⟨⟨input.drop (lx.position - 1), lx.position⟩, lx.ordinals⟩ }

/-- To give a lexer its own input changes nothing. -/
theorem IsSound.withInput_eq {input : Bytes} {lx : Lexer} (h : lx.IsSound input) :
    lx.withInput input = lx := by
  have hscanner : lx.scanner = ⟨⟨input.drop (lx.position - 1), lx.position⟩, lx.ordinals⟩ := by
    rw [← h.rest]
    rfl
  rw [withInput, ← hscanner]

/-- Behind the place where the input is cut off there is nothing. -/
theorem isDone_withInput_take (lx : Lexer) (input : Bytes) :
    (lx.withInput (input.take (lx.position - 1))).IsDone := by
  refine .inr ?_
  show (input.take (lx.position - 1)).drop (lx.position - 1) = []
  rw [List.drop_eq_nil_iff, List.length_take]
  exact Nat.min_le_left _ _

/-! ## At the end -/

/-- What a command comes to where nothing is left. -/
def outcomeAtEnd (lx : Lexer) : Command → Outcome
  | .next => ⟨.token lx.endToken, { lx with lastText := none }, [.token lx.endToken]⟩
  | .scan => ⟨.token lx.endToken, lx, []⟩
  | .tokenize =>
    ⟨.statement (.ok [lx.endToken]), { lx with lastText := none }, [.token lx.endToken]⟩
  | .truncate => ⟨.done, lx.truncate, []⟩
  | .comments shown => ⟨.done, lx.showComments shown, []⟩
  | .report message => ⟨.done, lx.report message, [.diagnosis (lx.diagnosis message)]⟩

/-- **At the end**: a lexer that is done carries out every command at once. -/
theorem IsDone.perform_eq {lx : Lexer} (h : lx.IsDone) (command : Command) :
    lx.perform command = lx.outcomeAtEnd command := by
  cases command with
  | next =>
    rw [Lexer.perform, h.next]
    rfl
  | scan =>
    rw [Lexer.perform, h.scan]
    rfl
  | tokenize =>
    rw [Lexer.perform, h.readStatement]
    rfl
  | truncate => rfl
  | comments shown => rfl
  | report message => rfl

/-! ## One command -/

/-- The statement of `lx` was ended where it stands, and `lx'` is in the same state but
    for that, with nothing left. -/
structure CutOff (lx lx' : Lexer) : Prop where
  isDone : lx'.IsDone
  /-- Once its statement is ended too, `lx'` cannot be told from `lx`. -/
  status : lx'.truncate.status = lx.status

/-- What relates the outcomes of two such lexers: they are the same to a consumer, who
    can only tell by the switch itself that a statement was ended. -/
structure Outcome.CutOff (o o' : Outcome) : Prop where
  reply : o'.reply = o.reply
  log : o'.log = o.log
  status : o'.lexer.truncate.status = o.lexer.status

namespace CutOff

variable {lx lx' : Lexer}

theorem isTruncated (h : lx.CutOff lx') : lx.isTruncated = true :=
  (congrArg Status.isTruncated h.status).symm

theorem isDone_left (h : lx.CutOff lx') : lx.IsDone :=
  .inl h.isTruncated

theorem endToken_eq (h : lx.CutOff lx') : lx'.endToken = lx.endToken := by
  have hposition : lx'.position = lx.position := congrArg Status.position h.status
  rw [endToken, endToken, hposition]

/-- Both lexers come to the same where nothing is left. -/
theorem outcomeAtEnd (h : lx.CutOff lx') (command : Command) :
    (lx.outcomeAtEnd command).CutOff (lx'.outcomeAtEnd command) := by
  have hend := h.endToken_eq
  cases command with
  | next =>
    refine ⟨congrArg Reply.token hend, ?_, status_lastText_congr h.status none⟩
    exact congrArg (fun t => [LogRecord.token t]) hend
  | scan => exact ⟨congrArg Reply.token hend, rfl, h.status⟩
  | tokenize =>
    refine ⟨?_, ?_, status_lastText_congr h.status none⟩
    · exact congrArg (fun t => Reply.statement (.ok [t])) hend
    · exact congrArg (fun t => [LogRecord.token t]) hend
  | truncate => exact ⟨rfl, rfl, status_truncate_congr h.status⟩
  | comments shown => exact ⟨rfl, rfl, status_showComments_congr h.status shown⟩
  | report message =>
    refine ⟨rfl, ?_, status_report_congr h.status message⟩
    exact congrArg (fun m => [LogRecord.diagnosis m]) (diagnosis_congr h.status message)

/-- **One command**: the outcome is the same, and the lexers stay as they are to each
    other. -/
theorem perform (h : lx.CutOff lx') (command : Command) :
    (lx.perform command).CutOff (lx'.perform command) ∧
      (lx.perform command).lexer.CutOff (lx'.perform command).lexer := by
  have houtcome : (lx.perform command).CutOff (lx'.perform command) := by
    rw [h.isDone_left.perform_eq, h.isDone.perform_eq]
    exact h.outcomeAtEnd command
  exact ⟨houtcome, (h.isDone.perform command).1, houtcome.status⟩

end CutOff

/-! ## Whole sessions -/

/-- What a consumer is told where nothing is left: tokens are the end at position `p`, and
    the rest of the statement is that end alone. -/
def AnswersEnd (p : Nat) : Command → Reply → Prop
  | .next, reply => reply = .token ⟨.endOfInput, none, p⟩
  | .scan, reply => reply = .token ⟨.endOfInput, none, p⟩
  | .tokenize, reply => reply = .statement (.ok [⟨.endOfInput, none, p⟩])
  | _, reply => reply = .done

/-- What does not change any more behind the end of a statement. -/
structure Outcome.IsFrozen (p n : Nat) (outcome : Outcome) : Prop where
  position : outcome.lexer.position = p
  ordinals : outcome.lexer.ordinals = n
  isTruncated : outcome.lexer.isTruncated = true

/-- **Frozen**: no command moves a lexer whose statement was ended, and none takes that
    back. -/
theorem session_frozen {lx : Lexer} (h : lx.isTruncated = true) (commands : List Command) :
    List.Forall₂ (fun command outcome =>
        outcome.IsFrozen lx.position lx.ordinals ∧ AnswersEnd lx.position command outcome.reply)
      commands (lx.session commands) := by
  -- By induction on the commands, each of which leaves the lexer where it is.
  induction commands generalizing lx with
  | nil => exact .nil
  | cons command more ih =>
    have hdone : lx.IsDone := .inl h
    have hscanner : (lx.perform command).lexer.scanner = lx.scanner := (hdone.perform command).2.1
    have hposition : (lx.perform command).lexer.position = lx.position :=
      congrArg Scanner.position hscanner
    have hordinals : (lx.perform command).lexer.ordinals = lx.ordinals :=
      congrArg Scanner.ordinals hscanner
    have htruncated : (lx.perform command).lexer.isTruncated = true := by
      rw [hdone.perform_eq]
      cases command with
      | truncate => rfl
      | _ => exact h
    have hreply : AnswersEnd lx.position command (lx.perform command).reply := by
      rw [hdone.perform_eq]
      cases command <;> rfl
    have hmore := ih htruncated
    rw [hposition, hordinals] at hmore
    exact .cons ⟨⟨hposition, hordinals, htruncated⟩, hreply⟩ hmore

/-- **Truncation**: let a session have brought a lexer of `input` somewhere, and there end
    its statement.  Whatever is asked for from then on, the replies and the messages are
    those of a lexer in the same state whose input is cut off there, and so is all that
    can be asked of the lexer, but for the switch itself.  The position and the number of
    placeholders stay as they are, every token is the end, and the switch stays on. -/
theorem session_truncate (input : Bytes) (shown : Bool) (before later : List Command) :
    let lx := ((start input).showComments shown).after before
    let cut := lx.withInput (input.take (lx.position - 1))
    lx.withInput input = lx ∧
    List.Forall₂ Outcome.CutOff (lx.truncate.session later) (cut.session later) ∧
    List.Forall₂ (fun command outcome =>
        outcome.IsFrozen lx.position lx.ordinals ∧ AnswersEnd lx.position command outcome.reply)
      later (lx.truncate.session later) := by
  intro lx cut
  have hsound : lx.IsSound input := (IsSound.start input shown).of_passes (after_passes _ before)
  have hcut : lx.truncate.CutOff cut := ⟨lx.isDone_withInput_take input, rfl⟩
  have htruncated : lx.truncate.isTruncated = true := rfl
  have hfrozen := session_frozen htruncated later
  refine ⟨hsound.withInput_eq, ?_, hfrozen⟩
  exact session_forall₂ (fun _ _ => trivial) (fun command h _ => h.perform command) hcut trivial

end SqlTokens.Lexer
