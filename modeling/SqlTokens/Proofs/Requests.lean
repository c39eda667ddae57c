import SqlTokens.Proofs.Binding
import SqlTokens.Proofs.EntryPoints
import SqlTokens.Template.Record

/-! # Requests to a template

    A template counts the arguments before anything is done with them.  If there are as many
    as it has placeholders, they are paired with the names or handed to a backend, as they
    are and once; if not, there is the same error either way, and no backend hears of them.

    * **Single requests**: `Template.execute_watched` — what a backend is called with, for any
      backend; `Template.answers_answer` — one case for each outcome of a request.
    * **Rows of requests**: `Template.answerAll_append`, and `Template.requests_recorded` — the
      record holds what was counted right and taken, in order, and nothing else. -/

namespace SqlTokens

open Utf8 (ofString)

/-! ## Single requests -/

/-- A backend with a list of the arguments of all calls that it had, whatever it made of
    them. -/
def Backend.watched {σ α ρ : Type} (backend : Backend σ α ρ) :
    Backend (σ × List (List α)) α ρ where
  execute x args :=
    ((backend.execute x.1 args).1, (backend.execute x.1 args).2, x.2 ++ [args])

namespace Template

/-- The error of a statement that is given so many arguments. -/
def miscount (s : Template) (given : Nat) : Error :=
  .binding (.arity s.arity given)

theorem checkArity_of_eq {s : Template} {given : Nat} (h : given = s.arity) :
    s.checkArity given = .ok () :=
  if_pos h

theorem checkArity_of_ne {s : Template} {given : Nat} (h : given ≠ s.arity) :
    s.checkArity given = .error (s.miscount given) :=
  if_neg h

/-- Arguments are paired with the names, each with its own. -/
theorem bind_of_eq {α : Type} {s : Template} {args : List α} (h : args.length = s.arity) :
    ∃ pairs, s.bind args = .ok pairs ∧ pairs.length = s.arity ∧
      pairs.map Prod.fst = s.placeholders ∧ pairs.map Prod.snd = args := by
  have hbind := s.bind_eq args
  rw [if_pos h] at hbind
  have hlength : args.length = s.placeholders.length := h
  refine ⟨_, hbind, ?_, List.map_fst_zip (Nat.le_of_eq hlength.symm),
    List.map_snd_zip (Nat.le_of_eq hlength)⟩
  rw [List.length_zip, hlength, Nat.min_self]
  rfl

theorem bind_of_ne {α : Type} {s : Template} {args : List α} (h : args.length ≠ s.arity) :
    s.bind args = .error (s.miscount args.length) := by
  rw [bind_eq, if_neg h]
  rfl

/-- Whether arguments are paired or refused is a matter of their number. -/
theorem bind_cases {α : Type} (s : Template) (args : List α) :
    (s.bind args = .error (s.miscount args.length) ↔ args.length ≠ s.arity) ∧
    ((∃ pairs, s.bind args = .ok pairs ∧ pairs.length = s.arity ∧
      pairs.map Prod.fst = s.placeholders ∧ pairs.map Prod.snd = args) ↔
        args.length = s.arity) := by
  by_cases h : args.length = s.arity
  · obtain ⟨pairs, hbind, hpairs⟩ := bind_of_eq h
    refine ⟨?_, iff_of_true ⟨pairs, hbind, hpairs⟩ h⟩
    simp [hbind, h]
  · have hbind := bind_of_ne h
    refine ⟨iff_of_true hbind h, iff_of_false ?_ h⟩
    rintro ⟨pairs, hpairs, -⟩
    simp [hbind] at hpairs

section
variable {σ α ρ : Type} {s : Template} (backend : Backend σ α ρ) (state : σ) {args : List α}

/-- What the backend answers is the answer. -/
theorem execute_of_eq (h : args.length = s.arity) :
    s.execute backend state args =
      ⟨(backend.execute state args).1, (backend.execute state args).2,
        [.execution args.length]⟩ := by
  unfold execute
  rw [checkArity_of_eq h]

/-- The backend is left as it is. -/
theorem execute_of_ne (h : args.length ≠ s.arity) :
    s.execute backend state args = ⟨.error (s.miscount args.length), state, []⟩ := by
  unfold execute
  rw [checkArity_of_ne h]

/-- **Calls**: a backend is called once, with the arguments as they are, if they are as many
    as there are placeholders, and then its own result or error is the answer; it is not
    called at all if they are not, and then the error is about their number. -/
theorem execute_watched (calls : List (List α)) (args : List α) :
    (s.execute backend.watched (state, calls) args =
        ⟨.error (s.miscount args.length), (state, calls), []⟩ ↔ args.length ≠ s.arity) ∧
    (s.execute backend.watched (state, calls) args =
        ⟨(backend.execute state args).1, ((backend.execute state args).2, calls ++ [args]),
          [.execution args.length]⟩ ↔ args.length = s.arity) := by
  by_cases h : args.length = s.arity
  · have hcalled := execute_of_eq backend.watched (state, calls) h
    rw [hcalled]
    refine ⟨?_, iff_of_true rfl h⟩
    simp [Backend.watched, h]
  · have hspared := execute_of_ne backend.watched (state, calls) h
    rw [hspared]
    refine ⟨iff_of_true rfl h, ?_⟩
    simp [h]

end

/-- What a request does, given the record before it: one case for each outcome. -/
inductive Answers {α : Type} (s : Template) (record : Record α) :
    Request α → Outcome α → Prop
  /-- The arguments are too many or too few to be paired. -/
  | unpaired {args : List α} (h : args.length ≠ s.arity) :
    Answers s record (.bind args) ⟨.bound (.error (s.miscount args.length)), record, []⟩
  /-- Each name gets its argument, and no backend is called. -/
  | paired {args : List α} {pairs : List (String × α)} (h : args.length = s.arity)
    (hnames : pairs.map Prod.fst = s.placeholders) (hargs : pairs.map Prod.snd = args) :
    Answers s record (.bind args) ⟨.bound (.ok pairs), record, []⟩
  /-- The arguments are too many or too few for the backend to be called. -/
  | spared {args : List α} {refusal : Option Error} (h : args.length ≠ s.arity) :
    Answers s record (.execute args refusal)
      ⟨.executed (.error (s.miscount args.length)), record, []⟩
  /-- The backend takes the arguments and counts them. -/
  | taken {args : List α} (h : args.length = s.arity) :
    Answers s record (.execute args none)
      ⟨.executed (.ok args.length), record ++ [args], [.execution args.length]⟩
  /-- The backend refuses them with an error of its own. -/
  | refused {args : List α} {e : Error} (h : args.length = s.arity) :
    Answers s record (.execute args (some e))
      ⟨.executed (.error e), record, [.execution args.length]⟩

/-- Each request is answered in one of these ways. -/
theorem answers_answer {α : Type} (s : Template) (record : Record α) (request : Request α) :
    s.Answers record request (s.answer record request) := by
  cases request with
  | bind args =>
    show s.Answers record (.bind args) ⟨.bound (s.bind args), record, []⟩
    by_cases h : args.length = s.arity
    · obtain ⟨pairs, hbind, -, hnames, hargs⟩ := bind_of_eq h
      rw [hbind]
      exact .paired h hnames hargs
    · rw [bind_of_ne h]
      exact .unpaired h
  | execute args refusal =>
    by_cases h : args.length = s.arity
    · cases refusal with
      | none =>
        simp only [answer, execute_of_eq (Backend.recording α) record h]
        exact .taken h
      | some e =>
        simp only [answer, execute_of_eq (Backend.refusing α e) record h]
        exact .refused h
    · cases refusal with
      | none =>
        simp only [answer, execute_of_ne (Backend.recording α) record h]
        exact .spared h
      | some e =>
        simp only [answer, execute_of_ne (Backend.refusing α e) record h]
        exact .spared h

/-! ## Rows of requests -/

/-- The arguments that a request adds to the record: there are as many as `arity` says, and
    the backend does not refuse them. -/
def Request.accepted? {α : Type} (arity : Nat) : Request α → Option (List α)
  | .execute args none => if args.length = arity then some args else none
  | _ => none

/-- The argument lists that requests add to the record, in order. -/
def accepted {α : Type} (s : Template) (requests : List (Request α)) : Record α :=
  requests.filterMap (Request.accepted? s.arity)

/-- A request adds to the record what it is said to. -/
theorem Answers.record_eq {α : Type} {s : Template} {record : Record α} {request : Request α}
    {outcome : Outcome α} (h : s.Answers record request outcome) :
    outcome.record = record ++ s.accepted [request] := by
  cases h with
  | unpaired h => simp [accepted, Request.accepted?]
  | paired h hnames hargs => simp [accepted, Request.accepted?]
  | @spared args refusal h =>
    cases refusal with
    | none => simp [accepted, Request.accepted?, h]
    | some e => simp [accepted, Request.accepted?]
  | taken h => simp [accepted, Request.accepted?, h]
  | refused h => simp [accepted, Request.accepted?]

theorem accepted_append {α : Type} (s : Template) (earlier later : List (Request α)) :
    s.accepted (earlier ++ later) = s.accepted earlier ++ s.accepted later :=
  List.filterMap_append

/-- **Rows of requests**: what comes later is answered by the same statement, and finds in the
    record what the earlier requests have added. -/
theorem answerAll_append {α : Type} (s : Template) (record : Record α)
    (earlier later : List (Request α)) :
    s.answerAll record (earlier ++ later) =
      s.answerAll record earlier ++ s.answerAll (record ++ s.accepted earlier) later := by
  induction earlier generalizing record with
  | nil => simp [answerAll, accepted]
  | cons request more ih =>
    have hrecord := (s.answers_answer record request).record_eq
    rw [List.cons_append, answerAll, answerAll, ih, hrecord, List.append_assoc,
      ← accepted_append, List.singleton_append, List.cons_append]

theorem length_answerAll {α : Type} (s : Template) (record : Record α)
    (requests : List (Request α)) : (s.answerAll record requests).length = requests.length := by
  induction requests generalizing record with
  | nil => rfl
  | cons request more ih => simp [answerAll, ih]

/-- The outcome of a request in a row is that of the request alone, with the record as the
    earlier ones have left it. -/
theorem getElem?_answerAll {α : Type} (s : Template) (record : Record α)
    {requests : List (Request α)} {i : Nat} {request : Request α}
    (h : requests[i]? = some request) :
    (s.answerAll record requests)[i]? =
      some (s.answer (record ++ s.accepted (requests.take i)) request) := by
  obtain ⟨hi, rfl⟩ := List.getElem?_eq_some_iff.1 h
  have hsplit : requests = requests.take i ++ requests[i] :: requests.drop (i + 1) := by
    rw [← List.drop_eq_getElem_cons hi, List.take_append_drop]
  have hlength : (s.answerAll record (requests.take i)).length = i := by
    rw [length_answerAll, List.length_take, Nat.min_eq_left (Nat.le_of_lt hi)]
  have hrun := s.answerAll_append record (requests.take i) (requests[i] :: requests.drop (i + 1))
  rw [← hsplit] at hrun
  rw [hrun, List.getElem?_append_right (Nat.le_of_eq hlength), hlength, Nat.sub_self, answerAll,
    List.getElem?_cons_zero]

/-- The record after requests: that of the last outcome, if there is one. -/
def recorded {α : Type} (s : Template) (record : Record α) (requests : List (Request α)) :
    Record α :=
  ((s.answerAll record requests).getLast?.map Outcome.record).getD record

theorem recorded_eq {α : Type} (s : Template) (record : Record α)
    (requests : List (Request α)) :
    s.recorded record requests = record ++ s.accepted requests := by
  rcases List.eq_nil_or_concat requests with rfl | ⟨earlier, last, rfl⟩
  · simp [recorded, answerAll, accepted]
  · -- The last outcome is that of the last request, behind the record of the earlier ones.
    have hlast := (s.answers_answer (record ++ s.accepted earlier) last).record_eq
    rw [List.append_assoc, ← accepted_append] at hlast
    simp [recorded, answerAll_append, answerAll, hlast]

/-! ## Statements -/

/-- A statement that can be made a template has no malformed token, and its names are those
    that are made for its `?`. -/
theorem eq_of_ofText {sql : String} {s : Template} (h : ofText sql = .ok s) :
    s = ⟨sql, ordinalTexts (questionsOf (ofString sql)).length⟩ := by
  have hno := failure?_ofText sql
  rw [h, syntaxError?] at hno
  have hfind := Option.map_eq_none_iff.1 hno.symm
  have hwell : ∀ x ∈ scanned (ofString sql), x.token.isMalformed = false := by
    intro x hx
    simpa using List.find?_eq_none.1 hfind x hx
  rw [ofText_eq hwell] at h
  exact (Except.ok.inj h).symm

/-- **Requests**: let a statement be made a template, which takes as many arguments as there
    are `?` in it.  Arguments are paired exactly if they are as many, each with a name of its
    own, and whatever backend there is, it is called exactly if they are as many: once, with
    the arguments as they are, and its own result or error is the answer.  Otherwise the
    answer is the same error either way, and the backend is not called.

    In a row of requests each one is answered so by the same statement.  The record before it
    holds what was accepted until then, and so does the record at the end. -/
theorem requests_recorded {sql : String} {s : Template} (h : ofText sql = .ok s) :
    (s.sql = sql ∧ s.placeholders = ordinalTexts s.arity ∧
      s.arity = (questionsOf (ofString sql)).length) ∧
    (∀ given, ∃ fault, s.miscount given = .binding fault ∧ fault.message =
      "statement expects " ++ toString s.arity ++ " arguments, got " ++ toString given) ∧
    (∀ {α : Type} (args : List α),
      (s.bind args = .error (s.miscount args.length) ↔ args.length ≠ s.arity) ∧
      ((∃ pairs, s.bind args = .ok pairs ∧ pairs.length = s.arity ∧
        pairs.map Prod.fst = s.placeholders ∧ pairs.map Prod.snd = args) ↔
          args.length = s.arity) ∧
      ∀ {σ ρ : Type} (backend : Backend σ α ρ) (state : σ) (calls : List (List α)),
        (s.execute backend.watched (state, calls) args =
          ⟨.error (s.miscount args.length), (state, calls), []⟩ ↔ args.length ≠ s.arity) ∧
        (s.execute backend.watched (state, calls) args =
          ⟨(backend.execute state args).1, ((backend.execute state args).2, calls ++ [args]),
            [.execution args.length]⟩ ↔ args.length = s.arity)) ∧
    ∀ {α : Type} (record : Record α) (requests : List (Request α)),
      (s.answerAll record requests).length = requests.length ∧
      (∀ i request, requests[i]? = some request →
        ∃ outcome, (s.answerAll record requests)[i]? = some outcome ∧
          s.Answers (record ++ s.accepted (requests.take i)) request outcome) ∧
      s.recorded record requests = record ++ s.accepted requests := by
  refine ⟨?_, fun given => ⟨_, rfl, rfl⟩, ?_, ?_⟩
  · obtain rfl := eq_of_ofText h
    have harity : arity ⟨sql, ordinalTexts (questionsOf (ofString sql)).length⟩ =
        (questionsOf (ofString sql)).length := length_ordinalTexts _
    rw [harity]
    exact ⟨rfl, rfl, rfl⟩
  · intro α args
    obtain ⟨herror, hok⟩ := s.bind_cases args
    exact ⟨herror, hok, fun backend state calls => execute_watched backend state calls args⟩
  · intro α record requests
    refine ⟨s.length_answerAll record requests, ?_, s.recorded_eq record requests⟩
    intro i request hi
    exact ⟨_, s.getElem?_answerAll record hi, s.answers_answer _ request⟩

/-- Of five requests two reach the record: one is no execution, one has an argument too few,
    and one is refused. -/
theorem requests_recorded_mixed :
    ofText "?,:v1,'?',?" = .ok ⟨"?,:v1,'?',?", [":v1", ":v2"]⟩ ∧
    recorded ⟨"?,:v1,'?',?", [":v1", ":v2"]⟩ [[0]] [.bind [1, 1], .execute [2, 3] none,
      .execute [4] none, .execute [5, 6] (some (.sqlParsing "refused")),
      .execute [7, 8] none] = [[0], [2, 3], [7, 8]] ∧
    bind ⟨"?,:v1,'?',?", [":v1", ":v2"]⟩ [4] = .error (.binding (.arity 2 1)) ∧
    (BindingFault.arity 2 1).message = "statement expects 2 arguments, got 1" := by
  have htext : ofText "?,:v1,'?',?" = .ok ⟨"?,:v1,'?',?", [":v1", ":v2"]⟩ := by
    rw [ofText_eq (by decide +kernel)]
    decide +kernel
  obtain ⟨-, -, hcalls, hrows⟩ := requests_recorded htext
  obtain ⟨-, -, hrecord⟩ := hrows [[0]] [.bind [1, 1], .execute [2, 3] none,
    .execute [4] none, .execute [5, 6] (some (.sqlParsing "refused")), .execute [7, 8] none]
  obtain ⟨herror, -⟩ := hcalls [4]
  exact ⟨htext, hrecord, herror.2 (by decide), by decide⟩

end Template

end SqlTokens
