import SqlTokens.Error

/-! # Output

    What a command writes is planned as a whole: parts, in order, and the outcome
    that it has once all are written.  A sink takes all parts or none. -/

namespace SqlTokens

/-- A part of the output. -/
inductive Part where
  /-- A line, which is written with its end. -/
  | line (text : String)
  /-- A document that a printer writes. -/
  | document (text : String)
  deriving DecidableEq

/-- The text of a part. -/
def Part.text : Part → String
  | .line text => text ++ "\n"
  | .document text => text

/-- The error if a sink does not take a part. -/
def Part.refusal : Part → Error
  | .line _ => .io .sinkClosed
  | .document _ => .serialization .sinkClosed

/-- Where output goes. -/
inductive Sink where
  /-- It takes all that is written. -/
  | accepting
  /-- It takes nothing. -/
  | refusing
  deriving DecidableEq

/-- The parts that a command writes, and its outcome after the last. -/
structure Plan where
  parts : List Part
  outcome : Except Error Unit

namespace Plan

/-- Writes nothing and fails. -/
def failed (e : Error) : Plan :=
  ⟨[], .error e⟩

/-- Writes these parts and succeeds. -/
def ofParts (parts : List Part) : Plan :=
  ⟨parts, .ok ()⟩

/-- What is written to a sink, and the outcome.  The first part that is refused is
    the last that is tried. -/
def deliver (plan : Plan) : Sink → String × Except Error Unit
  | .accepting => (String.join (plan.parts.map Part.text), plan.outcome)
  | .refusing =>
    match plan.parts with
    | [] => ("", plan.outcome)
    | part :: _ => ("", .error part.refusal)

/-- What failed before anything was written has failed for every sink. -/
theorem deliver_failed (e : Error) (sink : Sink) : (failed e).deliver sink = ("", .error e) := by
  cases sink with
  | accepting => rfl
  | refusing => rfl

end Plan

end SqlTokens
