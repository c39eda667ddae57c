import SqlTokens.Proofs.Stepwise.Reader

/-! # Readers in an input

    A reader that started before an input always stands in it (`Reader.StandsIn`): what is left
    is the input from its offset on.  What an action does there is said by one case for each
    outcome (`Reader.Answers`); only a move is ever refused, at the end of the input and nowhere
    else, and then it changes nothing. -/

namespace SqlTokens.Reader

/-- How many bytes of the input were passed. -/
def offset (r : Reader) : Nat :=
  r.cursor.position - 1

/-- The reader stands in an input: what is left is the input from its offset on. -/
structure StandsIn (input : Bytes) (r : Reader) : Prop where
  rest : r.rest = input.drop r.offset
  position : r.cursor.position = r.offset + 1
  offset_le : r.offset ≤ input.length

namespace StandsIn

theorem start (input : Bytes) : (Reader.start input).StandsIn input :=
  ⟨rfl, rfl, Nat.zero_le _⟩

section
variable {input : Bytes} {r : Reader}

/-- The byte that is read next is the one at the offset. -/
theorem peek?_eq (h : r.StandsIn input) : r.peek? = input[r.offset]? := by
  have hhead : r.peek? = r.rest.head? := rfl
  rw [hhead, h.rest, List.head?_drop]

/-- Nothing is left exactly where the offset is the length of the input. -/
theorem rest_eq_nil_iff (h : r.StandsIn input) : r.rest = [] ↔ r.offset = input.length := by
  have hle := h.offset_le
  rw [h.rest, List.drop_eq_nil_iff]
  omega

end

end StandsIn

/-! ## Answers -/

/-- The reader behind the next byte, with the same buffer. -/
def onward (r : Reader) : Reader :=
  { r with cursor := r.cursor.skip 1 }

/-- What a reader that stands in an input does, and what it answers: one case for each
    outcome. -/
inductive Answers (input : Bytes) (r : Reader) : Action → Reply → Reader → Prop
  /-- The byte at the offset is told, or that there is none. -/
  | told : Answers input r .peek (.byte input[r.offset]?) r
  /-- A byte is passed. -/
  | passed {b : UInt8} (h : input[r.offset]? = some b) : Answers input r .pass .done r.onward
  /-- A byte is passed and collected. -/
  | collected {b : UInt8} (h : input[r.offset]? = some b) :
    Answers input r .collect .done { r.onward with buffer := r.buffer ++ [b] }
  /-- At the end of the input there is no byte to pass, and nothing changes. -/
  | refused {a : Action} (ha : a = .pass ∨ a = .collect) (h : r.offset = input.length) :
    Answers input r a (.refused ⟨r.cursor.position⟩) r
  /-- The byte at the offset is the one that is asked for, and it is passed. -/
  | found {b : UInt8} (h : input[r.offset]? = some b) :
    Answers input r (.passIf b) (.passed true) r.onward
  /-- It is another one, or there is none, and nothing changes. -/
  | missed {b : UInt8} (h : input[r.offset]? ≠ some b) :
    Answers input r (.passIf b) (.passed false) r

section
variable {input : Bytes} {r : Reader}

/-- Every action is answered in one of these ways. -/
theorem answers_perform (h : r.StandsIn input) (a : Action) :
    Answers input r a (r.perform a).1 (r.perform a).2 := by
  have hnext : input[r.offset]? = r.rest.head? := h.peek?_eq.symm
  have hend := h.rest_eq_nil_iff
  have htold : Answers input r .peek (.byte r.rest.head?) r := hnext ▸ .told
  obtain ⟨⟨rest, position⟩, buffer⟩ := r
  cases rest with
  | nil =>
    have hoffset := hend.1 rfl
    cases a with
    | peek => exact htold
    | pass => exact .refused (.inl rfl) hoffset
    | collect => exact .refused (.inr rfl) hoffset
    | passIf b => exact .missed (by simp [hnext])
  | cons b s =>
    cases a with
    | peek => exact htold
    | pass => exact .passed hnext
    | collect => exact .collected hnext
    | passIf c =>
      by_cases hc : b = c
      · have hperform : Reader.perform ⟨⟨b :: s, position⟩, buffer⟩ (.passIf c) =
            (.passed true, ⟨⟨s, position + 1⟩, buffer⟩) := if_pos (congrArg some hc)
        rw [hperform]
        exact .found (hc ▸ hnext)
      · have hne : some b ≠ some c := fun he => hc (Option.some.inj he)
        have hperform : Reader.perform ⟨⟨b :: s, position⟩, buffer⟩ (.passIf c) =
            (.passed false, ⟨⟨b :: s, position⟩, buffer⟩) := if_neg hne
        rw [hperform]
        exact .missed (hnext ▸ hne)

/-- Only moves are refused, and only at the end of the input. -/
theorem Answers.refused_iff {a : Action} {reply : Reply} {left : Reader}
    (h : Answers input r a reply left) :
    (∃ e, reply = .refused e) ↔ (a = .pass ∨ a = .collect) ∧ r.offset = input.length := by
  cases h with
  | refused ha hend => exact ⟨fun _ => ⟨ha, hend⟩, fun _ => ⟨_, rfl⟩⟩
  | told => simp
  | passed hb =>
    obtain ⟨hlt, -⟩ := List.getElem?_eq_some_iff.1 hb
    simp [Nat.ne_of_lt hlt]
  | collected hb =>
    obtain ⟨hlt, -⟩ := List.getElem?_eq_some_iff.1 hb
    simp [Nat.ne_of_lt hlt]
  | found hb => simp
  | missed hb => simp

/-! ## Places -/

/-- A reader that has passed a byte still stands in its input, one byte on. -/
theorem StandsIn.onward {b : UInt8} (h : r.StandsIn input) (hb : input[r.offset]? = some b) :
    r.onward.StandsIn input ∧ r.onward.offset = r.offset + 1 := by
  obtain ⟨hlt, -⟩ := List.getElem?_eq_some_iff.1 hb
  have hleft : 1 ≤ r.cursor.rest.length := by
    have hlength : r.cursor.rest.length = (input.drop r.offset).length := congrArg _ h.rest
    rw [hlength, List.length_drop]
    omega
  have hposition : r.onward.cursor.position = r.offset + 1 + 1 :=
    (Cursor.position_skip hleft).trans (congrArg (· + 1) h.position)
  have hoffset : r.onward.offset = r.offset + 1 := congrArg (· - 1) hposition
  have hrest : r.onward.rest = input.drop (r.offset + 1) := by
    rw [← List.drop_drop, ← h.rest]
    exact Cursor.rest_skip 1 r.cursor
  refine ⟨⟨?_, ?_, ?_⟩, hoffset⟩
  · rw [hoffset, hrest]
  · rw [hoffset, hposition]
  · rw [hoffset]
    exact hlt

/-- What an answer leaves stands in the input too. -/
theorem Answers.standsIn {a : Action} {reply : Reply} {left : Reader}
    (h : r.StandsIn input) (hanswers : Answers input r a reply left) : left.StandsIn input := by
  cases hanswers with
  | told => exact h
  | passed hb => exact (h.onward hb).1
  | collected hb =>
    obtain ⟨hrest, hposition, hle⟩ := (h.onward hb).1
    exact ⟨hrest, hposition, hle⟩
  | refused ha hend => exact h
  | found hb => exact (h.onward hb).1
  | missed hb => exact h

end

end SqlTokens.Reader
