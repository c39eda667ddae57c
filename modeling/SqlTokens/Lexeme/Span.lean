import SqlTokens.Byte

/-! # Spans

    A span is a rule that measures off the head of the input: it gives the part
    at the head that it takes, empty where it takes nothing.  Spans are put
    together one after the other, each reading where the one before it ended. -/

namespace SqlTokens

/-- A rule that takes a part of the input at its head. -/
abbrev Span : Type := Bytes → Bytes

namespace Span

/-- As many bytes of a class as there are. -/
def run (p : UInt8 → Bool) : Span :=
  List.takeWhile p

/-- At most one byte of a class. -/
def one (p : UInt8 → Bool) : Span
  | [] => []
  | b :: _ => if p b then [b] else []

/-- A byte of a class and then `more`, or nothing at all. -/
def opened (p : UInt8 → Bool) (more : Span) : Span
  | [] => []
  | b :: s => if p b then b :: more s else []

/-- What `first` takes, and then what `second` takes of the rest. -/
def followedBy (first second : Span) : Span := fun s =>
  first s ++ second (s.drop (first s).length)

/-! ## A span is a part of the input's head -/

theorem run_isPrefix (p : UInt8 → Bool) (s : Bytes) : run p s <+: s :=
  List.takeWhile_prefix p

theorem one_isPrefix (p : UInt8 → Bool) (s : Bytes) : one p s <+: s := by
  cases s with
  | nil => exact List.prefix_rfl
  | cons b s => by_cases h : p b <;> simp [one, h]

theorem opened_isPrefix {more : Span} (h : ∀ s, more s <+: s) (p : UInt8 → Bool) (s : Bytes) :
    opened p more s <+: s := by
  cases s with
  | nil => exact List.prefix_rfl
  | cons b s =>
    by_cases hb : p b
    · simpa [opened, hb] using h s
    · simp [opened, hb]

theorem followedBy_isPrefix {first second : Span} (h₁ : ∀ s, first s <+: s)
    (h₂ : ∀ s, second s <+: s) (s : Bytes) : followedBy first second s <+: s := by
  have h := (List.prefix_append_right_inj (first s)).2 (h₂ (s.drop (first s).length))
  rwa [List.prefix_iff_eq_append.1 (h₁ s)] at h

end Span

end SqlTokens
