import SqlTokens.Proofs.Counting

/-! # What a lexer remembers

    A lexer remembers the text of one token and one message, to be asked for later.  Which
    they are can be told from what happened to it: the tokens that it handed out, and the
    messages that it was asked to form.  Nothing else leaves a trace, neither what is
    scanned nor the comments that are passed over.

    * **What happens**: `Lexer.history` — the events of a session, in order.
    * **What is told from it**: `Lexer.lastHanded` and `Lexer.reports` look back over a
      history; they know nothing of a lexer.
    * **One command**: `Lexer.Recalls.perform` — the memory keeps up with the events.
    * **Whole sessions**: `Lexer.session_remembers`. -/

namespace SqlTokens.Lexer

/-! ## What happens -/

/-- What leaves a trace in the memory of a lexer. -/
inductive Event where
  /-- A token was handed out to a consumer, and not just scanned. -/
  | handed (t : Token)
  /-- A message was formed where the lexer stood. -/
  | reported (message : String) (position : Nat)

/-- The events of a command.  A statement hands out its tokens, also the one that it is
    refused for; then it forms a message. -/
def events (lx : Lexer) : Command → List Event
  | .next => [.handed lx.next.1]
  | .tokenize =>
    lx.readStatement.tokens.map .handed ++
      if lx.readStatement.last.1.isMalformed then
        [.reported "syntax error" lx.readStatement.last.2.position]
      else []
  | .report message => [.reported message lx.position]
  | .scan | .truncate | .comments _ => []

/-- The events of a session, in order. -/
def history (lx : Lexer) : List Command → List Event
  | [] => []
  | command :: more => lx.events command ++ (lx.perform command).lexer.history more

/-! ## What is told from it -/

def Event.token? : Event → Option Token
  | .handed t => some t
  | .reported _ _ => none

/-- The token that was handed out last. -/
def lastHanded (history : List Event) : Option Token :=
  history.reverse.findSome? Event.token?

/-- A message, with what was known when it was formed. -/
structure Report where
  message : String
  /-- Where the lexer stood. -/
  position : Nat
  /-- The token that had been handed out last. -/
  token : Option Token

/-- How a message is worded: with the place, and with the text of the token if it had one. -/
def Report.wording (r : Report) : String :=
  let placed := r.message ++ " at position " ++ toString r.position
  match r.token.bind Token.value with
  | none => placed
  | some text => placed ++ " near " ++ Utf8.toStringLossy text

/-- The messages of a history, when `told` had been handed out last before it. -/
def reports (told : Option Token) : List Event → List Report
  | [] => []
  | .handed t :: more => reports (some t) more
  | .reported message position :: more => ⟨message, position, told⟩ :: reports told more

/-- What came later counts. -/
theorem lastHanded_append (xs ys : List Event) :
    lastHanded (xs ++ ys) = (lastHanded ys).or (lastHanded xs) := by
  rw [lastHanded, List.reverse_append, List.findSome?_append]
  rfl

theorem reports_append (told : Option Token) (xs ys : List Event) :
    reports told (xs ++ ys) = reports told xs ++ reports ((lastHanded xs).or told) ys := by
  -- By induction on the first part; what it hands out is known to the second.
  induction xs generalizing told with
  | nil => rfl
  | cons x xs ih =>
    have hlast : (lastHanded (x :: xs)).or told = (lastHanded xs).or (x.token?.or told) := by
      rw [← List.singleton_append, lastHanded_append, Option.or_assoc]
      cases x <;> rfl
    rw [hlast]
    cases x with
    | handed t => exact ih (some t)
    | reported message position => exact congrArg (_ :: ·) (ih told)

/-- The tokens of a row, each of which was handed out. -/
theorem lastHanded_map_handed (ts : List Token) (t : Token) :
    lastHanded ((ts ++ [t]).map .handed) = some t := by
  rw [List.map_append, lastHanded_append]
  rfl

theorem reports_map_handed (told : Option Token) (ts : List Token) :
    reports told (ts.map .handed) = [] := by
  induction ts generalizing told with
  | nil => rfl
  | cons t ts ih => exact ih (some t)

/-! ## One command -/

theorem lastText_next (lx : Lexer) : lx.next.2.lastText = lx.next.1.value := by
  obtain ⟨lx', hnext⟩ := lx.exists_next_eq
  rw [hnext]

theorem lastText_readStatement (lx : Lexer) :
    lx.readStatement.last.2.lastText = lx.readStatement.last.1.value := by
  obtain ⟨lx', hlast⟩ := exists_last_eq .shown Token.isMalformed lx
  rw [show lx.readStatement.last = lx'.next from hlast]
  exact lx'.lastText_next

theorem lastText_scan (lx : Lexer) : lx.scan.2.lastText = lx.lastText := by
  unfold scan
  split
  · rfl
  · rfl

/-- No pull forms a message. -/
theorem isKept_lastDiagnosis (message : Option String) :
    IsKept fun lx => lx.lastDiagnosis = message where
  scan lx h := by
    rw [← h]
    unfold scan
    split
    · rfl
    · rfl
  lastText _ _ h := h

/-- The message of a lexer is worded from the token whose text it remembers. -/
theorem diagnosis_eq_wording {lx : Lexer} {told : Option Token}
    (h : lx.lastText = told.bind Token.value) (message : String) :
    lx.diagnosis message = Report.wording ⟨message, lx.position, told⟩ := by
  rw [diagnosis, h]
  rfl

/-- What a lexer remembers, when `told` was handed out last and `reports` are the
    messages that were formed. -/
structure Recalls (told : Option Token) (reports : List Report) (lx : Lexer) : Prop where
  lastText : lx.lastText = told.bind Token.value
  lastDiagnosis : lx.lastDiagnosis = reports.getLast?.map Report.wording

theorem recalls_start (input : Bytes) (shown : Bool) :
    ((start input).showComments shown).Recalls none [] :=
  ⟨rfl, rfl⟩

namespace Recalls

variable {told : Option Token} {earlier : List Report} {lx : Lexer}

/-- A statement leaves its last token, and a message if it is refused for that token. -/
theorem readStatement (h : lx.Recalls told earlier) :
    lx.readStatement.lexer.Recalls ((lastHanded (lx.events .tokenize)).or told)
      (earlier ++ Lexer.reports told (lx.events .tokenize)) := by
  have htokens : lx.readStatement.tokens =
      lx.readStatement.before.map Prod.fst ++ [lx.readStatement.last.1] := List.map_append
  have htext := lx.lastText_readStatement
  have hkept : lx.readStatement.last.2.lastDiagnosis = lx.lastDiagnosis :=
    (isKept_lastDiagnosis lx.lastDiagnosis).courseOnto .shown Token.isMalformed [] lx rfl
  rw [events, htokens, lastHanded_append, lastHanded_map_handed, reports_append,
    lastHanded_map_handed, reports_map_handed, List.nil_append, Course.lexer]
  by_cases hmalformed : lx.readStatement.last.1.isMalformed = true
  · rw [if_pos hmalformed, if_pos hmalformed]
    refine ⟨htext, ?_⟩
    have hmessage : lx.readStatement.last.2.malformedDiagnosis = Report.wording
        ⟨"syntax error", lx.readStatement.last.2.position, some lx.readStatement.last.1⟩ :=
      diagnosis_eq_wording htext _
    show some lx.readStatement.last.2.malformedDiagnosis = _
    rw [hmessage, reports, reports, List.getLast?_concat]
    rfl
  · rw [if_neg hmalformed, if_neg hmalformed]
    refine ⟨htext, ?_⟩
    rw [reports, List.append_nil, hkept, h.lastDiagnosis]

/-- **One command**: the memory keeps up with the events. -/
theorem perform (h : lx.Recalls told earlier) (command : Command) :
    (lx.perform command).lexer.Recalls ((lastHanded (lx.events command)).or told)
      (earlier ++ Lexer.reports told (lx.events command)) := by
  have hnone : earlier ++ Lexer.reports told [] = earlier := List.append_nil _
  cases command with
  | next =>
    have hkept : lx.next.2.lastDiagnosis = lx.lastDiagnosis :=
      (isKept_lastDiagnosis lx.lastDiagnosis).next lx rfl
    refine ⟨lx.lastText_next, ?_⟩
    show lx.next.2.lastDiagnosis = (earlier ++ []).getLast?.map Report.wording
    rw [hkept, List.append_nil, h.lastDiagnosis]
  | scan =>
    have hkept := (isKept_lastDiagnosis lx.lastDiagnosis).scan lx rfl
    rw [events, hnone]
    exact ⟨lx.lastText_scan.trans h.lastText, hkept.trans h.lastDiagnosis⟩
  | tokenize => exact h.readStatement
  | truncate =>
    rw [events, hnone]
    exact ⟨h.lastText, h.lastDiagnosis⟩
  | comments shown =>
    rw [events, hnone]
    exact ⟨h.lastText, h.lastDiagnosis⟩
  | report message =>
    refine ⟨h.lastText, ?_⟩
    show some (lx.diagnosis message) = _
    rw [diagnosis_eq_wording h.lastText, events, reports, reports, List.getLast?_concat]
    rfl

/-! ## Whole sessions -/

theorem after (h : lx.Recalls told earlier) (commands : List Command) :
    (lx.after commands).Recalls ((lastHanded (lx.history commands)).or told)
      (earlier ++ Lexer.reports told (lx.history commands)) := by
  -- By induction on the commands: the events of the first, and then the later ones.
  induction commands generalizing lx told earlier with
  | nil =>
    rw [history, Lexer.reports, List.append_nil]
    exact h
  | cons command more ih =>
    rw [after_cons, history, lastHanded_append, reports_append, Option.or_assoc,
      ← List.append_assoc]
    exact ih (h.perform command)

end Recalls

/-- A comment is only handed out to who wants to see comments. -/
theorem showsComments_of_mem_events {lx : Lexer} {command : Command} {t : Token}
    (ht : .handed t ∈ lx.events command) (hkind : t.kind = .comment) :
    lx.showsComments = true := by
  cases command with
  | next =>
    obtain ⟨k, -, -, hlast, hnext⟩ := lx.exists_next_eq_scans
    obtain rfl : t = lx.next.1 := by simpa [events] using ht
    rw [hnext] at hkind
    exact hlast hkind
  | tokenize =>
    have hmem : t ∈ lx.readStatement.tokens := by
      rw [events] at ht
      rcases List.mem_append.1 ht with ht | ht
      · simpa using ht
      · split at ht <;> simp at ht
    rw [Course.tokens_eq, readStatement_pulls] at hmem
    obtain ⟨x, hx, rfl⟩ := List.mem_map.1 hmem
    have hshown := (List.mem_filter.1 hx).2
    rw [Scanned.isShown, hkind] at hshown
    simpa using hshown
  | scan => cases ht
  | truncate => cases ht
  | comments shown => cases ht
  | report message => simp [events] at ht

/-- **Memory**: after a session, the lexer remembers the text of the token that was handed
    out last, be it the one that a statement was refused for, and none if that token had
    none or there was no token; and it remembers the message that was formed last, worded
    with the place where the lexer stood then and the text of the token that had been
    handed out last by then.  Comments that are passed over are not handed out. -/
theorem session_remembers (input : Bytes) (shown : Bool) (commands : List Command) :
    let lx := (start input).showComments shown
    let history := lx.history commands
    (lx.after commands).lastText = (lastHanded history).bind Token.value ∧
    (lx.after commands).lastDiagnosis = (reports none history).getLast?.map Report.wording ∧
    ∀ command t, .handed t ∈ (lx.after commands).events command → t.kind = .comment →
      (lx.after commands).showsComments = true := by
  intro lx history
  have hrecalls := (recalls_start input shown).after commands
  refine ⟨?_, hrecalls.lastDiagnosis, fun _ _ => showsComments_of_mem_events⟩
  rw [hrecalls.lastText, Option.or_none]

/-- A literal may have an empty text, which is not to have none; and a scan does not
    change what is remembered. -/
example :
    ((start (Utf8.ofString "'';")).after [.next, .scan, .report "halt"]).lastDiagnosis =
      some "halt at position 4 near " := by decide +kernel

end SqlTokens.Lexer
