/-! # Commands in a row

    Settings and readers are both asked one thing after the other, and each answer comes with
    the state behind it.  What holds of such a row whatever the commands are is said here once:
    each command finds the state that the earlier ones leave. -/

namespace SqlTokens

variable {State Command Reply : Type}

/-- `run` carries out commands in order, each by `perform`. -/
structure RunsBy (perform : State → Command → Reply × State)
    (run : State → List Command → List (Reply × State)) : Prop where
  nil : ∀ s, run s [] = []
  cons : ∀ s command more,
    run s (command :: more) = perform s command :: run (perform s command).2 more

/-- The state that commands leave. -/
def stateAfter (perform : State → Command → Reply × State) (s : State)
    (commands : List Command) : State :=
  commands.foldl (fun s command => (perform s command).2) s

namespace RunsBy

variable {perform : State → Command → Reply × State}
variable {run : State → List Command → List (Reply × State)}

/-- Every command is answered. -/
theorem length_eq (h : RunsBy perform run) (s : State) (commands : List Command) :
    (run s commands).length = commands.length := by
  induction commands generalizing s with
  | nil => rw [h.nil, List.length_nil, List.length_nil]
  | cons command more ih => rw [h.cons, List.length_cons, List.length_cons, ih]

/-- The answer to a command in a row, and the state behind it, are those of the command alone,
    in the state that the earlier ones leave. -/
theorem getElem?_eq (h : RunsBy perform run) {s : State} {commands : List Command} {i : Nat}
    {command : Command} (hi : commands[i]? = some command) :
    (run s commands)[i]? = some (perform (stateAfter perform s (commands.take i)) command) := by
  induction commands generalizing s i with
  | nil => simp at hi
  | cons first more ih =>
    cases i with
    | zero =>
      rw [List.getElem?_cons_zero, Option.some.injEq] at hi
      rw [h.cons, List.getElem?_cons_zero, hi]
      rfl
    | succ i =>
      rw [List.getElem?_cons_succ] at hi
      rw [h.cons, List.getElem?_cons_succ, ih hi]
      rfl

end RunsBy

/-- The state behind a command is that of the answer to it. -/
theorem stateAfter_take_succ {perform : State → Command → Reply × State} {s : State}
    {commands : List Command} {i : Nat} {command : Command} (hi : commands[i]? = some command) :
    stateAfter perform s (commands.take (i + 1)) =
      (perform (stateAfter perform s (commands.take i)) command).2 := by
  unfold stateAfter
  rw [List.take_add_one, hi, Option.toList_some, List.foldl_append]
  rfl

end SqlTokens
