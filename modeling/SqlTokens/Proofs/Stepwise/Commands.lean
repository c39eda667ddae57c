import SqlTokens.CommandLine.Execution
import SqlTokens.Proofs.Stepwise.Session

/-! # Commands, pull by pull

    A command of the program has a loop of its own.  It pulls one token after the other from
    a lexer that may be refused a byte, and it may write between two pulls.  A malformed token
    is reported to the lexer, and the message is asked back from it.

    A command is also planned as a whole.  Here its parts are written one by one, and the
    first that the sink does not take ends the command.

    * **Writing**: `writing_deliverBehind` and `writeAll_eq` — what is written part by part is
      the plan, delivered.
    * **Pulls**: `pullTokens_eq` and `pullPlaceholders_eq` — by induction on the pulls, a loop
      finds what the reading of the statement finds.
    * **Commands**: `execute_eq` — no byte is refused to a command, and it has the effect that
      is planned for it. -/

namespace SqlTokens.Stepwise

open Lexer (Course Pull)

/-! ## Writing -/

/-- What was written, and the outcome. -/
abbrev Delivery : Type := String × Except Error Unit

/-- Writes a part behind what was written, and goes on if the sink has taken it. -/
def writing (sink : Sink) (written : String) (part : Part)
    (more : String → Except EndOfInput Delivery) : Except EndOfInput Delivery :=
  match sink with
  | .accepting => more (written ++ part.text)
  | .refusing => .ok (written, .error part.refusal)

/-- Writes parts in order. -/
def writeAll (sink : Sink) (written : String) : List Part → Except EndOfInput Delivery
  | [] => .ok (written, .ok ())
  | part :: parts => writing sink written part fun written => writeAll sink written parts

/-- What becomes of a plan behind what was written before it. -/
def deliverBehind (written : String) (plan : Plan) (sink : Sink) : Delivery :=
  (written ++ (plan.deliver sink).1, (plan.deliver sink).2)

theorem deliverBehind_empty (plan : Plan) (sink : Sink) :
    deliverBehind "" plan sink = plan.deliver sink := by
  rw [deliverBehind, String.empty_append]

theorem deliverBehind_nil (written : String) (outcome : Except Error Unit) (sink : Sink) :
    deliverBehind written ⟨[], outcome⟩ sink = (written, outcome) := by
  cases sink with
  | accepting => exact congrArg (·, outcome) String.append_empty
  | refusing => exact congrArg (·, outcome) String.append_empty

/-- **One part**: a plan is delivered by writing its first part, and then the others. -/
theorem writing_deliverBehind (written : String) (part : Part) (parts : List Part)
    (outcome : Except Error Unit) (sink : Sink) :
    (writing sink written part fun written =>
      .ok (deliverBehind written ⟨parts, outcome⟩ sink)) =
      .ok (deliverBehind written ⟨part :: parts, outcome⟩ sink) := by
  cases sink with
  | accepting =>
    show Except.ok (written ++ part.text ++ String.join (parts.map Part.text), outcome) =
      .ok (written ++ String.join ((part :: parts).map Part.text), outcome)
    rw [List.map_cons, String.join_cons, String.append_assoc]
  | refusing =>
    show Except.ok (written, Except.error part.refusal) =
      .ok (written ++ "", .error part.refusal)
    rw [String.append_empty]

theorem writeAll_eq (sink : Sink) (written : String) (parts : List Part) :
    writeAll sink written parts = .ok (deliverBehind written (.ofParts parts) sink) := by
  induction parts generalizing written with
  | nil => rw [writeAll, Plan.ofParts, deliverBehind_nil]
  | cons part parts ih =>
    rw [writeAll, funext ih]
    exact writing_deliverBehind written part parts (.ok ()) sink

/-! ## Tokens -/

/-- Reports a malformed token, and makes an error of the message. -/
def syntaxError (lx : Lexer) : Error :=
  .sqlParsing ((lx.report "syntax error").lastDiagnosis.getD "")

/-- The message that is asked back is the one that was reported. -/
theorem syntaxError_eq (lx : Lexer) : syntaxError lx = .sqlParsing lx.malformedDiagnosis := rfl

/-- Pulls the tokens of a statement; these were pulled already. -/
def pullTokens (tokens : List Token) (lx : Lexer) :
    Except EndOfInput (Except Error (List Token)) :=
  match _h : next lx with
  | .error e => .error e
  | .ok (token, after) =>
    if token.isMalformed then .ok (.error (syntaxError after))
    else if token.isEnd then .ok (.ok tokens)
    else pullTokens (tokens ++ [token]) after
termination_by lx.remaining
decreasing_by exact remaining_lt_of_next _h (by simp_all [Token.isEnd])

/-- Lists the tokens of a statement, once all are pulled. -/
def writeTokens (sql : String) (showsComments json : Bool) (sink : Sink) :
    Except EndOfInput Delivery := do
  match ← pullTokens [] ((Lexer.start (Utf8.ofString sql)).showComments showsComments) with
  | .error e => return ("", .error e)
  | .ok tokens => writeAll sink "" (listTokens tokens json)

section
variable {lx after : Lexer} {token : Token}

theorem readStatement_of_ends (h : next lx = .ok (token, after))
    (hends : token.isEnd = true ∨ token.isMalformed = true) :
    lx.readStatement = ⟨[], token, after⟩ := by
  rw [Token.isEnd_iff] at hends
  rw [Lexer.readStatement, Lexer.course_eq, pull_of_next h, if_pos hends]

theorem readStatement_of_goesOn (h : next lx = .ok (token, after))
    (hend : ¬ token.isEnd = true) (hmalformed : ¬ token.isMalformed = true) :
    lx.readStatement = after.readStatement.cons (token, after) := by
  rw [Token.isEnd_iff] at hend
  rw [Lexer.readStatement, Lexer.course_eq, pull_of_next h,
    if_neg (not_or.2 ⟨hend, hmalformed⟩)]
  rfl

end

theorem result_cons (pull : Pull) (c : Course) :
    (c.cons pull).result = c.result.map fun tokens => pull.1 :: tokens := by
  have herror : (c.cons pull).error? = c.error? := rfl
  rw [Course.result, Course.result, herror]
  cases c.error? with
  | none => rfl
  | some e => rfl

/-- **Tokens**: what is pulled is the statement without the end of the input, unless a token
    is malformed. -/
theorem pullTokens_eq (tokens : List Token) (lx : Lexer) :
    pullTokens tokens lx =
      .ok (lx.tokenize.map fun more => tokens ++ more.filter fun t => !t.isEnd) := by
  -- By induction on the pulls; the last of them is malformed or the end.
  fun_induction pullTokens tokens lx with
  | case1 tokens lx e he => cases he.symm.trans (next_eq lx)
  | case2 tokens lx token after hnext hmalformed =>
    rw [Lexer.tokenize, readStatement_of_ends hnext (.inr hmalformed), Course.result,
      Course.error?, if_pos hmalformed, syntaxError_eq]
    rfl
  | case3 tokens lx token after hnext hmalformed hend =>
    rw [Lexer.tokenize, readStatement_of_ends hnext (.inl hend), Course.result, Course.error?,
      if_neg hmalformed]
    simp [Course.tokens, Course.pulls, Except.map, hend]
  | case4 tokens lx token after hnext hmalformed hend ih =>
    rw [ih, Lexer.tokenize, Lexer.tokenize, readStatement_of_goesOn hnext hend hmalformed,
      result_cons]
    cases after.readStatement.result with
    | error e => rfl
    | ok more => simp [Except.map, hend]

/-- The tokens are written as they are planned. -/
theorem writeTokens_eq (sql : String) (showsComments json : Bool) (sink : Sink) :
    writeTokens sql showsComments json sink =
      .ok ((planTokens sql showsComments json).deliver sink) := by
  show (_ >>= _) = _
  rw [pullTokens_eq, ok_bind, planTokens]
  cases ((Lexer.start (Utf8.ofString sql)).showComments showsComments).tokenize with
  | error e => exact congrArg Except.ok (Plan.deliver_failed e sink).symm
  | ok tokens =>
    show writeAll sink "" (listTokens (tokens.filter fun t => !t.isEnd) json) = _
    rw [writeAll_eq, deliverBehind_empty]

/-! ## Placeholders -/

/-- Pulls the tokens of a statement, and writes a line for each placeholder. -/
def pullPlaceholders (sink : Sink) (written : String) (lx : Lexer) :
    Except EndOfInput Delivery :=
  match _h : next lx with
  | .error e => .error e
  | .ok (token, after) =>
    if token.isEnd then .ok (written, .ok ())
    else if token.isMalformed then .ok (written, .error (syntaxError after))
    else if token.kind = .placeholder then
      let line :=
        if lx.ordinals < after.ordinals then toString after.ordinals ++ "\t" ++ token.text
        else "-\t" ++ token.text
      writing sink written (.line line) fun written => pullPlaceholders sink written after
    else pullPlaceholders sink written after
termination_by lx.remaining
decreasing_by all_goals exact remaining_lt_of_next _h (by simp_all [Token.isEnd])

section
variable {lx after : Lexer} {token : Token}

theorem placeholderPlan_of_ends (h : next lx = .ok (token, after))
    (hends : token.isEnd = true ∨ token.isMalformed = true) :
    lx.placeholderPlan =
      ⟨[], if token.isMalformed then .error (syntaxError after) else .ok ()⟩ := by
  rw [Lexer.placeholderPlan, readStatement_of_ends h hends, syntaxError_eq]
  cases hmalformed : token.isMalformed with
  | true => simp [Course.error?, hmalformed]
  | false => simp [Course.error?, hmalformed]

/-- A pull is listed first, if it is a placeholder. -/
theorem placeholderPlan_of_goesOn (h : next lx = .ok (token, after))
    (hend : ¬ token.isEnd = true) (hmalformed : ¬ token.isMalformed = true) :
    lx.placeholderPlan =
      ⟨(placeholderLine? lx.ordinals (token, after)).toList.map .line ++
          after.placeholderPlan.parts,
        after.placeholderPlan.outcome⟩ := by
  have herror : lx.readStatement.error? = after.readStatement.error? := by
    rw [readStatement_of_goesOn h hend hmalformed]
    rfl
  have hbefore : lx.readStatement.before = (token, after) :: after.readStatement.before := by
    rw [readStatement_of_goesOn h hend hmalformed]
    rfl
  unfold Lexer.placeholderPlan
  dsimp only
  rw [herror, hbefore, List.map_cons, List.zipWith_cons_cons]
  cases placeholderLine? lx.ordinals (token, after) with
  | none => rfl
  | some line => rfl

end

/-- **Placeholders**: what is written between the pulls is what is planned of them. -/
theorem pullPlaceholders_eq (sink : Sink) (written : String) (lx : Lexer) :
    pullPlaceholders sink written lx = .ok (deliverBehind written lx.placeholderPlan sink) := by
  -- By induction on the pulls, for whatever was written before them.
  fun_induction pullPlaceholders sink written lx with
  | case1 written lx e he => cases he.symm.trans (next_eq lx)
  | case2 written lx token after hnext hend =>
    have hmalformed : token.isMalformed = false := by
      rw [Token.isMalformed, Token.isEnd_iff.1 hend]
      rfl
    rw [placeholderPlan_of_ends hnext (.inl hend), hmalformed, deliverBehind_nil]
    rfl
  | case3 written lx token after hnext hend hmalformed =>
    rw [placeholderPlan_of_ends hnext (.inr hmalformed), if_pos hmalformed, deliverBehind_nil]
  | case4 written lx token after hnext hend hmalformed hkind line ih =>
    have hline : placeholderLine? lx.ordinals (token, after) = some line := by
      by_cases hcount : lx.ordinals < after.ordinals
      · simp [placeholderLine?, line, hkind, hcount]
      · simp [placeholderLine?, line, hkind, hcount]
    rw [funext ih, placeholderPlan_of_goesOn hnext hend hmalformed, hline]
    exact writing_deliverBehind written (.line line) after.placeholderPlan.parts
      after.placeholderPlan.outcome sink
  | case5 written lx token after hnext hend hmalformed hkind ih =>
    have hline : placeholderLine? lx.ordinals (token, after) = none := by
      simp [placeholderLine?, hkind]
    rw [ih, placeholderPlan_of_goesOn hnext hend hmalformed, hline]
    rfl

/-! ## Commands -/

/-- Carries out a command: what is written, and the outcome. -/
def execute (command : Command) (config : Config) (files : Files) (sink : Sink) :
    Except EndOfInput Delivery :=
  match command with
  | .tokenize given file allowComments json =>
    match statementText files given file with
    | .error e => .ok ("", .error e)
    | .ok sql => writeTokens sql (allowComments || config.allowComments) json sink
  | .placeholders sql => pullPlaceholders sink "" (Lexer.start (Utf8.ofString sql))
  | .keywords => writeAll sink "" (Keyword.all.map fun k => .line k.spelling)

/-- **No refusal**: pull by pull, a command has the effect that is planned for it. -/
theorem execute_eq (command : Command) (config : Config) (files : Files) (sink : Sink) :
    execute command config files sink = .ok (command.execute config files sink) := by
  cases command with
  | tokenize given file allowComments json =>
    rw [execute, Command.execute, Command.plan]
    cases statementText files given file with
    | error e => exact congrArg Except.ok (Plan.deliver_failed e sink).symm
    | ok sql => exact writeTokens_eq sql (allowComments || config.allowComments) json sink
  | placeholders sql =>
    rw [execute, pullPlaceholders_eq, deliverBehind_empty]
    rfl
  | keywords =>
    rw [execute, writeAll_eq, deliverBehind_empty]
    rfl

end SqlTokens.Stepwise
