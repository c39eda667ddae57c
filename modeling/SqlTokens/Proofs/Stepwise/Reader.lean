import SqlTokens.Cursor
import SqlTokens.Proofs.Replacement

/-! # Steps of a reader

    Here the rules of the lexer are followed byte by byte.  A step moves a reader,
    and each byte that it passes is asked for at its place: at the end of the input
    it is refused, and the refusal is the result of the step.

    The spans of the lexer know of no refusal.  A step *collects* a span
    (`Step.Collects`) if it takes just the bytes that the span takes and is never
    refused, whatever is left of the input.  The ways in which spans are put
    together are kept: runs (`collectWhile_collects`), single bytes
    (`collectIf_collects`), openings (`opened_collects`), and one after the other
    (`Step.Collects.followedBy`). -/

namespace SqlTokens

namespace Reader

/-- The byte that is read next. -/
def peek? (r : Reader) : Option UInt8 :=
  r.cursor.peek?

/-- What is still to be read. -/
def rest (r : Reader) : Bytes :=
  r.cursor.rest

/-- The reader after an action, unless the action is refused. -/
def after (r : Reader) (a : Action) : Except EndOfInput Reader :=
  match r.perform a with
  | (.refused e, _) => .error e
  | (_, next) => .ok next

/-- Passes a byte. -/
def pass (r : Reader) : Except EndOfInput Reader :=
  r.after .pass

/-- Passes a byte and collects it. -/
def collect (r : Reader) : Except EndOfInput Reader :=
  r.after .collect

/-- Passes the next byte if it is `b`, and says whether it was. -/
def passIf (b : UInt8) (r : Reader) : Except EndOfInput (Bool × Reader) :=
  if r.peek? = some b then do return (true, ← r.pass)
  else return (false, r)

/-- Collects a byte that was not read. -/
def push (r : Reader) (b : UInt8) : Reader :=
  { r with buffer := r.buffer ++ [b] }

section
variable (b : UInt8) (s : Bytes) (p : Nat) (buffer : Bytes)

@[simp] theorem peek?_mk : peek? ⟨⟨s, p⟩, buffer⟩ = s.head? := rfl

@[simp] theorem rest_mk : rest ⟨⟨s, p⟩, buffer⟩ = s := rfl

@[simp] theorem pass_cons : pass ⟨⟨b :: s, p⟩, buffer⟩ = .ok ⟨⟨s, p + 1⟩, buffer⟩ := rfl

@[simp] theorem collect_cons :
    collect ⟨⟨b :: s, p⟩, buffer⟩ = .ok ⟨⟨s, p + 1⟩, buffer ++ [b]⟩ := rfl

theorem passIf_cons_self :
    passIf b ⟨⟨b :: s, p⟩, buffer⟩ = .ok (true, ⟨⟨s, p + 1⟩, buffer⟩) := by
  rw [passIf, peek?_mk, if_pos List.head?_cons]
  rfl

variable {b s} in
theorem passIf_of_ne (h : s.head? ≠ some b) :
    passIf b ⟨⟨s, p⟩, buffer⟩ = .ok (false, ⟨⟨s, p⟩, buffer⟩) := by
  rw [passIf, peek?_mk, if_neg h]
  rfl

@[simp] theorem push_mk : push ⟨⟨s, p⟩, buffer⟩ b = ⟨⟨s, p⟩, buffer ++ [b]⟩ := rfl

end

/-- A byte can only be passed if one is left, and there are fewer then. -/
theorem length_rest_pass {r next : Reader} (h : r.pass = .ok next) :
    next.rest.length < r.rest.length := by
  obtain ⟨⟨s, p⟩, buffer⟩ := r
  cases s with
  | nil => cases h
  | cons b s =>
    cases h
    exact Nat.lt_succ_self _

theorem length_rest_collect {r next : Reader} (h : r.collect = .ok next) :
    next.rest.length < r.rest.length := by
  obtain ⟨⟨s, p⟩, buffer⟩ := r
  cases s with
  | nil => cases h
  | cons b s =>
    cases h
    exact Nat.lt_succ_self _

theorem length_rest_passIf {b : UInt8} {r next : Reader} {passed : Bool}
    (h : r.passIf b = .ok (passed, next)) : next.rest.length ≤ r.rest.length := by
  unfold passIf at h
  split at h
  · cases hp : r.pass with
    | error e =>
      rw [hp] at h
      cases h
    | ok after =>
      rw [hp] at h
      cases h
      exact Nat.le_of_lt (length_rest_pass hp)
  · cases h
    exact Nat.le_refl _

/-- The reader after it collected the bytes `x`. -/
def collected (r : Reader) (x : Bytes) : Reader :=
  ⟨⟨r.rest.drop x.length, r.cursor.position + x.length⟩, r.buffer ++ x⟩

@[simp] theorem rest_collected (r : Reader) (x : Bytes) :
    (r.collected x).rest = r.rest.drop x.length := rfl

@[simp] theorem collected_nil (r : Reader) : r.collected [] = r := by
  simp [collected, rest]

theorem collect_eq {r : Reader} {b : UInt8} {s : Bytes} (h : r.rest = b :: s) :
    r.collect = .ok (r.collected [b]) := by
  obtain ⟨⟨_, p⟩, buffer⟩ := r
  cases h
  rfl

theorem collected_cons (b : UInt8) (s x : Bytes) (p : Nat) (buffer : Bytes) :
    collected ⟨⟨b :: s, p⟩, buffer⟩ (b :: x) = collected ⟨⟨s, p + 1⟩, buffer ++ [b]⟩ x := by
  simp [collected, Nat.add_assoc, Nat.add_comm 1]

theorem collected_collected (r : Reader) (x y : Bytes) :
    (r.collected x).collected y = r.collected (x ++ y) := by
  simp [collected, rest, Nat.add_assoc]

end Reader

/-! ## Steps -/

/-- A move of a reader that may be refused. -/
abbrev Step : Type := Reader → Except EndOfInput Reader

/-- The step takes what the span takes, and it is never refused. -/
def Step.Collects (step : Step) (span : Span) : Prop :=
  ∀ r, step r = .ok (r.collected (span r.rest))

/-- Collects bytes for as long as `goes` says so of the one that comes next. -/
def collectWhile (goes : Option UInt8 → Bool) (r : Reader) : Except EndOfInput Reader :=
  if goes r.peek? then
    match _h : r.collect with
    | .error e => .error e
    | .ok next => collectWhile goes next
  else .ok r
termination_by r.rest.length
decreasing_by exact Reader.length_rest_collect _h

/-- Collects the next byte if it is of the class `q`, and then does what `more` says. -/
def collectOpened (q : UInt8 → Bool) (more : Step) : Step := fun r =>
  if r.peek?.any q then r.collect >>= more else .ok r

theorem ok_bind {ε α β : Type} (a : α) (f : α → Except ε β) : (Except.ok a >>= f) = f a := rfl

/-- Two steps one after the other are not refused only if neither is. -/
theorem of_bind_eq_ok {ε α β : Type} {x : Except ε α} {f : α → Except ε β} {b : β}
    (h : (x >>= f) = .ok b) : ∃ a, x = .ok a ∧ f a = .ok b := by
  cases x with
  | error e => cases h
  | ok a => exact ⟨a, rfl, h⟩

/-- A class of what may come next that leaves out the end of the input. -/
theorem collectWhile_collects {goes : Option UInt8 → Bool} {q : UInt8 → Bool}
    (hsome : ∀ b, goes (some b) = q b) (hnone : goes none = false) :
    Step.Collects (collectWhile goes) (Span.run q) := by
  rintro ⟨⟨s, p⟩, buffer⟩
  -- By induction on what is left; at the end of it, `goes` says no by itself.
  induction s generalizing p buffer with
  | nil =>
    rw [collectWhile, if_neg (by simp [hnone])]
    simp [Span.run]
  | cons b s ih =>
    rw [collectWhile]
    by_cases hb : q b = true
    · rw [if_pos (by simpa [hsome] using hb)]
      split
      · next e he => cases he
      · next next hnext =>
        cases hnext
        rw [ih]
        simp [Span.run, hb, Reader.collected, Cursor.peek?, Nat.add_assoc, Nat.add_comm 1]
    · rw [if_neg (by simpa [hsome] using hb)]
      simp [Span.run, hb]

theorem opened_collects {q : UInt8 → Bool} {more : Step} {span : Span}
    (h : more.Collects span) : Step.Collects (collectOpened q more) (Span.opened q span) := by
  rintro ⟨⟨s, p⟩, buffer⟩
  cases s with
  | nil => simp [collectOpened, Span.opened]
  | cons b s =>
    by_cases hb : q b = true
    · simp only [collectOpened, Reader.peek?_mk, List.head?_cons, Option.any_some, hb, if_true,
        Reader.collect_cons, ok_bind, h _, Reader.rest_mk, Span.opened]
      simp [Reader.collected, Nat.add_assoc, Nat.add_comm 1]
    · simp [collectOpened, Span.opened, hb]

/-- Collects the next byte if it is of the class `q`. -/
def collectIf (q : UInt8 → Bool) : Step :=
  collectOpened q .ok

theorem collectIf_collects (q : UInt8 → Bool) :
    Step.Collects (collectIf q) (Span.one q) := by
  -- A single byte is an opening with nothing after it.
  have hnothing : Step.Collects .ok fun _ => [] := fun r => by simp
  have hone : Span.one q = Span.opened q fun _ => [] := by
    funext s
    cases s <;> rfl
  rw [hone]
  exact opened_collects hnothing

theorem Step.Collects.followedBy {first second : Step} {span span' : Span}
    (h : first.Collects span) (h' : second.Collects span') :
    Step.Collects (fun r => first r >>= second) (span.followedBy span') := by
  intro r
  show first r >>= second = _
  rw [h r, ok_bind, h' (r.collected _), Reader.collected_collected]
  rfl

end SqlTokens
