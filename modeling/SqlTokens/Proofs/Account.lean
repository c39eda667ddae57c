import Mathlib.Data.List.Basic
import SqlTokens.Proofs.Histories
import SqlTokens.Proofs.Stepwise.Counters

/-! # A reader is accounted for by its answers

    Whatever is asked of a reader, in whatever order, its answers tell where it stands and what
    it has collected: as many bytes were passed as answers say so, and in the buffer are the
    bytes at the offsets where an answer says that one was collected.

    * **One action**: `Reader.Accounts.concat` — what one more answer adds to the account.
    * **Rows of actions**: `Reader.actions_accounted`, also where the counters are moved in
      place and a refused action does not take back what it has done. -/

namespace SqlTokens.Reader

/-! ## Accounts -/

/-- By the answer to it, an action has passed a byte. -/
def hasPassed : Action × Reply → Bool
  | (.pass, .done) => true
  | (.collect, .done) => true
  | (.passIf _, .passed yes) => yes
  | _ => false

/-- How many bytes were passed, by the answers. -/
def passedIn (history : List (Action × Reply)) : Nat :=
  history.countP hasPassed

/-- The offsets at which a byte was collected, by the answers and in order: each is the number
    of bytes that were passed before. -/
def collectedAt (history : List (Action × Reply)) : List Nat :=
  (List.range history.length).filterMap fun i =>
    if history[i]? = some (.collect, .done) then some (passedIn (history.take i)) else none

/-- What the answers tell of a reader that started before the input. -/
structure Accounts (input : Bytes) (history : List (Action × Reply)) (r : Reader) : Prop where
  /-- The position is one more than the number of bytes that were passed. -/
  position : r.cursor.position = passedIn history + 1
  /-- The input has that many bytes. -/
  passed_le : passedIn history ≤ input.length
  /-- What is left are the others. -/
  rest : r.rest = input.drop (passedIn history)
  /-- The first of them is read next, and there is none exactly if all were passed. -/
  next : r.peek? = input[passedIn history]?
  next_eq_none_iff : r.peek? = none ↔ passedIn history = input.length
  /-- The buffer has the bytes at the offsets where one was collected. -/
  buffer : r.buffer.map some = (collectedAt history).map (input[·]?)

theorem collectedAt_concat (history : List (Action × Reply)) (event : Action × Reply) :
    collectedAt (history ++ [event]) =
      collectedAt history ++ if event = (.collect, .done) then [passedIn history] else [] := by
  -- The earlier offsets depend on the earlier answers alone.
  have hearlier : ∀ i ∈ List.range history.length,
      (if (history ++ [event])[i]? = some (.collect, .done) then
        some (passedIn ((history ++ [event]).take i)) else none) =
      if history[i]? = some (.collect, .done) then some (passedIn (history.take i)) else none := by
    intro i hi
    have hlt := List.mem_range.1 hi
    rw [List.getElem?_append_left hlt, List.take_append_of_le_length (Nat.le_of_lt hlt)]
  have hlast : (history ++ [event])[history.length]? = some event := by simp
  unfold collectedAt
  rw [List.length_append, List.length_singleton, List.range_succ, List.filterMap_append,
    List.filterMap_congr hearlier]
  congr 1
  by_cases h : event = (.collect, .done)
  · simp [h]
  · simp [h]

/-! ## One action -/

section
variable {input : Bytes} {r : Reader} {history : List (Action × Reply)}

/-- An account is that of the place in the input and of the buffer. -/
theorem Accounts.of_standsIn (h : r.StandsIn input) (hoffset : r.offset = passedIn history)
    (hbuffer : r.buffer.map some = (collectedAt history).map (input[·]?)) :
    r.Accounts input history := by
  obtain ⟨hrest, hposition, hle⟩ := id h
  have hnext := h.peek?_eq
  rw [hoffset] at hrest hposition hle hnext
  refine ⟨hposition, hle, hrest, hnext, ?_, hbuffer⟩
  rw [hnext, List.getElem?_eq_none_iff]
  omega

theorem Accounts.standsIn (h : r.Accounts input history) :
    r.StandsIn input ∧ r.offset = passedIn history := by
  have hoffset : r.offset = passedIn history := congrArg (· - 1) h.position
  refine ⟨⟨?_, ?_, ?_⟩, hoffset⟩
  · rw [hoffset, h.rest]
  · rw [hoffset, h.position]
  · rw [hoffset]
    exact h.passed_le

section
variable {a : Action} {reply : Reply} {left : Reader}

/-- The answer says whether a byte was passed. -/
theorem Answers.offset_eq (h : r.StandsIn input) (hanswers : Answers input r a reply left) :
    left.offset = r.offset + passedIn [(a, reply)] := by
  cases hanswers with
  | told => rfl
  | passed hb => exact (h.onward hb).2
  | collected hb => exact (h.onward hb).2
  | refused ha hend =>
    rcases ha with rfl | rfl
    · rfl
    · rfl
  | found hb => exact (h.onward hb).2
  | missed hb => rfl

/-- The answer says whether a byte was collected. -/
theorem Answers.buffer_eq (hanswers : Answers input r a reply left) :
    left.buffer.map some = r.buffer.map some ++
      if (a, reply) = (.collect, .done) then [input[r.offset]?] else [] := by
  cases hanswers with
  | told => simp
  | passed hb => simp [onward]
  | collected hb => simp [hb]
  | refused ha hend => simp
  | found hb => simp [onward]
  | missed hb => simp

/-- **One action**: the answer to it completes the account. -/
theorem Accounts.concat (h : r.Accounts input history)
    (hanswers : Answers input r a reply left) : left.Accounts input (history ++ [(a, reply)]) := by
  obtain ⟨hplace, hoffset⟩ := h.standsIn
  apply Accounts.of_standsIn (hanswers.standsIn hplace)
  · rw [hanswers.offset_eq hplace, hoffset, passedIn, passedIn, passedIn, List.countP_append]
  · rw [hanswers.buffer_eq, collectedAt_concat, List.map_append, h.buffer, hoffset]
    congr 1
    split
    · rfl
    · rfl

end

end

/-! ## Rows of actions -/

/-- The reader after actions. -/
def afterAll (r : Reader) (actions : List Action) : Reader :=
  actions.foldl (fun r a => (r.perform a).2) r

/-- Actions, each with the answer to it. -/
def history (r : Reader) (actions : List Action) : List (Action × Reply) :=
  actions.zip ((r.run actions).map Prod.fst)

section
variable {input : Bytes} {r : Reader}

theorem runsBy_run : RunsBy perform run :=
  ⟨fun _ => rfl, fun _ _ _ => rfl⟩

/-- The answers to a row of actions complete the account of the earlier ones. -/
theorem Accounts.afterAll {before : List (Action × Reply)} (h : r.Accounts input before)
    (actions : List Action) :
    (r.afterAll actions).Accounts input (before ++ r.history actions) := by
  -- By induction on the actions, with the answers until then in the account.
  induction actions generalizing r before with
  | nil => rwa [history, List.zip_nil_left, List.append_nil]
  | cons a more ih =>
    have hstep := h.concat (answers_perform h.standsIn.1 a)
    have hmore := ih hstep
    rwa [List.append_assoc] at hmore

end

/-- **Rows of actions**: a reader that starts before an input answers as one that moves its two
    counters in place, and the counters stay in step.

    Each action of a row finds the reader that the earlier ones leave, and is answered in one
    of the ways of `Answers`: only a move is refused, exactly at the end of the input, and then
    the reader is as it was.  And after any actions the answers until then account for the
    reader. -/
theorem actions_accounted (input : Bytes) (actions : List Action) :
    (Counted.start input).run actions =
      ((start input).run actions).map (fun step => (step.1, step.2.counted input)) ∧
    ((start input).run actions).length = actions.length ∧
    (∀ i a, actions[i]? = some a →
      ∃ reply left, ((start input).run actions)[i]? = some (reply, left) ∧
        (start input).afterAll (actions.take (i + 1)) = left ∧
        Answers input ((start input).afterAll (actions.take i)) a reply left ∧
        ((∃ e, reply = .refused e) ↔ (a = .pass ∨ a = .collect) ∧
          ((start input).afterAll (actions.take i)).offset = input.length)) ∧
    ∀ i, ((start input).afterAll (actions.take i)).Accounts input
      ((start input).history (actions.take i)) := by
  have hstart : (start input).StandsIn input := .start input
  have hempty : (start input).Accounts input [] := .of_standsIn hstart rfl rfl
  have haccounts : ∀ i, ((start input).afterAll (actions.take i)).Accounts input
      ((start input).history (actions.take i)) := fun i => hempty.afterAll (actions.take i)
  refine ⟨Counted.run_eq hstart actions, runsBy_run.length_eq _ actions, ?_, haccounts⟩
  intro i a h
  have hanswers := answers_perform (haccounts i).standsIn.1 a
  exact ⟨_, _, runsBy_run.getElem?_eq h, stateAfter_take_succ h, hanswers, hanswers.refused_iff⟩

/-- A byte that is not the one asked for, one that is, and two moves beyond the end: the second
    of them finds the buffer as the first one did. -/
theorem actions_accounted_beyond :
    (Counted.start [0x61, 0x62]).run [.collect, .passIf 0x61, .passIf 0x62, .collect, .pass] =
      [(.done, ⟨[0x61, 0x62], 1, 2, [0x61]⟩), (.passed false, ⟨[0x61, 0x62], 1, 2, [0x61]⟩),
        (.passed true, ⟨[0x61, 0x62], 2, 3, [0x61]⟩),
        (.refused ⟨3⟩, ⟨[0x61, 0x62], 2, 3, [0x61]⟩),
        (.refused ⟨3⟩, ⟨[0x61, 0x62], 2, 3, [0x61]⟩)] ∧
    ∃ e left, ((start [0x61, 0x62]).run [.collect, .passIf 0x61, .passIf 0x62, .collect,
      .pass])[3]? = some (.refused e, left) := by
  obtain ⟨hcounted, -, hanswers, -⟩ := actions_accounted [0x61, 0x62]
    [.collect, .passIf 0x61, .passIf 0x62, .collect, .pass]
  obtain ⟨reply, left, hrun, -, -, hrefused⟩ := hanswers 3 .collect rfl
  obtain ⟨e, he⟩ := hrefused.2 ⟨.inr rfl, by decide⟩
  refine ⟨hcounted.trans (by decide), e, left, ?_⟩
  rw [hrun, he]

end SqlTokens.Reader
