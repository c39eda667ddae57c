import SqlTokens.Template.Basic

/-! # Recorded executions

    A backend that keeps a record: the argument lists that it was called with, in
    order.  It may also refuse a call, which leaves the record as it was.  A row
    of requests to a template runs against one such record. -/

namespace SqlTokens

/-- The argument lists that a backend was called with, in order. -/
abbrev Record (α : Type) : Type := List (List α)

namespace Backend

/-- Records each call and counts its arguments. -/
def recording (α : Type) : Backend (Record α) α Nat where
  execute calls args := (.ok args.length, calls ++ [args])

/-- Refuses every call. -/
def refusing (α : Type) (e : Error) : Backend (Record α) α Nat where
  execute calls _ := (.error e, calls)

end Backend

namespace Template

/-- What may be asked of a template. -/
inductive Request (α : Type) where
  /-- Pair the placeholders with these arguments. -/
  | bind (args : List α)
  /-- Have a backend record them, or refuse them with this error. -/
  | execute (args : List α) (refusal : Option Error)

/-- The result of a request. -/
inductive Reply (α : Type) where
  | bound (result : Except Error (List (String × α)))
  | executed (result : Except Error Nat)

/-- The effect of a request. -/
structure Outcome (α : Type) where
  reply : Reply α
  record : Record α
  log : List LogRecord

/-- Answers one request, given the record so far. -/
def answer {α : Type} (s : Template) (record : Record α) : Request α → Outcome α
  | .bind args => ⟨.bound (s.bind args), record, []⟩
  | .execute args refusal =>
    let backend := match refusal with
      | none => Backend.recording α
      | some e => Backend.refusing α e
    let execution := s.execute backend record args
    ⟨.executed execution.result, execution.state, execution.log⟩

/-- Answers requests in order. -/
def answerAll {α : Type} (s : Template) (record : Record α) :
    List (Request α) → List (Outcome α)
  | [] => []
  | request :: more =>
    let outcome := s.answer record request
    outcome :: s.answerAll outcome.record more

end Template

end SqlTokens
