import SqlTokens.Lexer.Statement

/-! # Statement templates

    A template is the text of a statement together with the names made for its
    `?`.  Arguments go to them in order: the `n`-th `?` takes the `n`-th argument,
    and there must be as many of the one as of the other.  A backend carries the
    statement out; it is not even called when the number is wrong. -/

namespace SqlTokens

/-- The text of a statement, and the names made for its `?` in order. -/
structure Template where
  sql : String
  placeholders : List String
  deriving DecidableEq

/-- What carries statements out: given a state and the arguments, its own result
    or error, and the state after it. -/
structure Backend (σ α ρ : Type) where
  execute : σ → List α → Except Error ρ × σ

namespace Template

/-- The statement with this text, if the text is one. -/
def ofText (sql : String) : Except Error Template := do
  return ⟨sql, ← Lexer.ordinalNames sql⟩

/-- How many arguments the statement takes. -/
def arity (s : Template) : Nat :=
  s.placeholders.length

/-- Refuses any number of arguments but the right one. -/
def checkArity (s : Template) (given : Nat) : Except Error Unit :=
  if given = s.arity then .ok () else .error (.binding (.arity s.arity given))

/-- Each placeholder with its argument. -/
def bind {α : Type} (s : Template) (args : List α) : Except Error (List (String × α)) := do
  s.checkArity args.length
  return s.placeholders.zip args

/-- The effect of carrying a statement out. -/
structure Execution (σ ρ : Type) where
  result : Except Error ρ
  state : σ
  log : List LogRecord

/-- Has a backend carry the statement out. -/
def execute {σ α ρ : Type} (s : Template) (backend : Backend σ α ρ) (state : σ)
    (args : List α) : Execution σ ρ :=
  match s.checkArity args.length with
  | .error e => ⟨.error e, state, []⟩
  | .ok _ =>
    let (result, state) := backend.execute state args
    ⟨result, state, [.execution args.length]⟩

end Template

end SqlTokens
