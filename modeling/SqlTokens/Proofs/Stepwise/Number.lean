import SqlTokens.Proofs.Stepwise.Reader

/-! # The states of a number

    A number is read by a machine of nine states, which sees one byte ahead and
    never goes back.  A zero at the head leaves open of which radix the number is;
    digits of radix eight may turn out to be decimal when an 8 or a 9 comes, and
    legal only when a fraction or an exponent follows them.

    * **Termination**: `NumberState.rank_lt_of_step` — each state leads to one of
      lower rank, so the machine stops after six steps at the most
      (`NumberState.exists_steps`).
    * **Result**: `NumberState.run_start` — the machine takes the number that
      `Lexeme.number` measures off, and is never refused a byte.  The proof goes
      backward, from the last state to the first, with one lemma for each. -/

namespace SqlTokens

namespace Byte

theorem digitValue_lt_ten (b : UInt8) : decide (digitValue b < 10) = isDigit b := by
  rw [Bool.eq_iff_iff]
  simp only [digitValue, isDigit]
  grind [UInt8.le_iff_toNat_le]

/-- A digit that no number of radix eight has. -/
def isLateDigit (b : UInt8) : Bool :=
  b == 0x38 || b == 0x39

theorem isDigit_of_isLateDigit {b : UInt8} (h : isLateDigit b = true) : isDigit b = true := by
  simp only [isLateDigit, Bool.or_eq_true, beq_iff_eq] at h
  rcases h with rfl | rfl <;> rfl

/-- The digits are those of radix eight and the late ones. -/
theorem digitValue_lt_eight (b : UInt8) :
    decide (digitValue b < 8) = (isDigit b && !isLateDigit b) := by
  rw [Bool.eq_iff_iff]
  simp only [digitValue, isDigit, isLateDigit, UInt8.le_iff_toNat_le, Bool.and_eq_true,
    Bool.not_eq_true', Bool.or_eq_false_iff, decide_eq_true_eq, beq_eq_false_iff_ne, ne_eq,
    ← UInt8.toNat_inj, UInt8.reduceToNat]
  split
  · omega
  · split
    · omega
    · split <;> omega

end Byte

/-! ## The machine -/

/-- Collects the digits whose value is below `base`. -/
def collectDigits (base : Nat) : Step :=
  collectWhile fun b => Byte.nextDigitValue b < base

/-- What is known of a number that is being read. -/
inductive NumberState where
  /-- Nothing yet. -/
  | start
  /-- A zero comes next: the number is of radix sixteen or eight, if not decimal. -/
  | leadingZero
  | hexadecimal
  | octal
  /-- The digits before the point come next. -/
  | mantissa
  | fraction
  | exponent
  | done
  /-- There is an 8 or a 9 in a number of radix eight. -/
  | illegalOctal
  deriving DecidableEq

namespace NumberState

/-- What the machine does in a state, and the state after it. -/
def step : NumberState → Reader → Except EndOfInput (NumberState × Reader)
  | .start, r => .ok (if r.peek? = some Byte.zero then .leadingZero else .mantissa, r)
  | .leadingZero, r => do
    let r ← r.collect
    if r.peek?.any Byte.isRadixMark then return (.hexadecimal, ← r.collect)
    else return (.octal, r)
  | .hexadecimal, r => do return (.done, ← collectDigits 16 r)
  | .octal, r => do
    let r ← collectDigits 8 r
    let isLate := r.peek?.any Byte.isLateDigit
    let r ← (if isLate then collectDigits 10 r else .ok r)
    if r.peek?.any (fun b => b == Byte.dot || Byte.isExponentMark b) then return (.fraction, r)
    else return (if isLate then .illegalOctal else .done, r)
  | .mantissa, r => do return (.fraction, ← collectDigits 10 r)
  | .fraction, r => do
    return (.exponent, ← collectOpened (· == Byte.dot) (collectDigits 10) r)
  | .exponent, r => do
    let digits : Step := fun r => collectIf Byte.isSign r >>= collectDigits 10
    return (.done, ← collectOpened Byte.isExponentMark digits r)
  | .done, r => .ok (.done, r)
  | .illegalOctal, r => .ok (.illegalOctal, r)

/-- The kind of the token that ends in this state, if the machine stops in it. -/
def kind? : NumberState → Option TokenKind
  | .done => some .number
  | .illegalOctal => some .malformed
  | _ => none

/-- How many steps there are still to come, at the most. -/
def rank : NumberState → Nat
  | .start => 6
  | .leadingZero => 5
  | .octal => 4
  | .mantissa => 4
  | .fraction => 3
  | .exponent => 2
  | .hexadecimal => 1
  | .done => 0
  | .illegalOctal => 0

theorem rank_lt_of_step {state next : NumberState} {r after : Reader} (hk : state.kind? = none)
    (h : state.step r = .ok (next, after)) : next.rank < state.rank := by
  -- The bytes that a step collects do not matter, only the state that it leads to.
  cases state with
  | start =>
    cases h
    split <;> decide
  | leadingZero =>
    obtain ⟨r', -, h⟩ := of_bind_eq_ok h
    by_cases hmark : r'.peek?.any Byte.isRadixMark = true
    · rw [if_pos hmark] at h
      obtain ⟨r'', -, h⟩ := of_bind_eq_ok h
      cases h
      decide
    · rw [if_neg hmark] at h
      cases h
      decide
  | octal =>
    obtain ⟨r', -, h⟩ := of_bind_eq_ok h
    obtain ⟨r'', -, h⟩ := of_bind_eq_ok h
    split at h
    · cases h
      decide
    · cases h
      split <;> decide
  | hexadecimal =>
    obtain ⟨r', -, h⟩ := of_bind_eq_ok h
    cases h
    decide
  | mantissa =>
    obtain ⟨r', -, h⟩ := of_bind_eq_ok h
    cases h
    decide
  | fraction =>
    obtain ⟨r', -, h⟩ := of_bind_eq_ok h
    cases h
    decide
  | exponent =>
    obtain ⟨r', -, h⟩ := of_bind_eq_ok h
    cases h
    decide
  | done => cases hk
  | illegalOctal => cases hk

/-- Runs the machine from a state until it stops: the kind of the token, and the
    reader after it. -/
def run (state : NumberState) (r : Reader) : Except EndOfInput (TokenKind × Reader) :=
  match _hk : state.kind? with
  | some kind => .ok (kind, r)
  | none =>
    match _hs : state.step r with
    | .error e => .error e
    | .ok (next, after) => next.run after
termination_by state.rank
decreasing_by exact rank_lt_of_step _hk _hs

theorem run_of_kind? {state : NumberState} {kind : TokenKind} (h : state.kind? = some kind)
    (r : Reader) : state.run r = .ok (kind, r) := by
  rw [run]
  split
  · next kind' hk =>
    cases h.symm.trans hk
    rfl
  · next hk => cases h.symm.trans hk

theorem run_of_step {state next : NumberState} {r after : Reader} (hk : state.kind? = none)
    (hs : state.step r = .ok (next, after)) : state.run r = next.run after := by
  rw [run]
  split
  · next kind hk' => cases hk.symm.trans hk'
  · split
    · next e hs' => cases hs.symm.trans hs'
    · next next' after' hs' =>
      cases hs.symm.trans hs'
      rfl

/-- Where the machine sets out: before a digit or, if a point comes first, behind the
    digits after it. -/
def enter (r : Reader) : Except EndOfInput (NumberState × Reader) :=
  if r.peek? = some Byte.dot then do
    let r ← r.pass
    return (.exponent, ← collectDigits 10 (r.push Byte.dot))
  else .ok (.start, r)

/-- Where the machine is after `n` steps, unless it is refused a byte. -/
def steps : Nat → NumberState × Reader → Except EndOfInput (NumberState × Reader)
  | 0, reached => .ok reached
  | n + 1, (state, r) => state.step r >>= steps n

/-- A run has as many steps as the rank of its first state, at the most. -/
theorem exists_steps {state : NumberState} {r after : Reader} {kind : TokenKind}
    (h : state.run r = .ok (kind, after)) :
    ∃ n ≤ state.rank, ∃ last, steps n (state, r) = .ok (last, after) ∧ last.kind? = some kind := by
  fun_induction run state r with
  | case1 state r kind' hk =>
    cases h
    exact ⟨0, Nat.zero_le _, state, rfl, hk⟩
  | case2 state r hk e hs => cases h
  | case3 state r hk next after' hs ih =>
    obtain ⟨n, hn, last, hsteps, hlast⟩ := ih h
    refine ⟨n + 1, Nat.lt_of_le_of_lt hn (rank_lt_of_step hk hs), last, ?_, hlast⟩
    show state.step r >>= steps n = _
    rw [hs, ok_bind, hsteps]

/-! ## What the machine takes -/

theorem collectDigits_collects {base : Nat} (hb : base ≤ 16) {q : UInt8 → Bool}
    (hq : ∀ b, decide (Byte.digitValue b < base) = q b) :
    Step.Collects (collectDigits base) (Span.run q) :=
  collectWhile_collects hq (decide_eq_false (Nat.not_lt.2 hb))

theorem collectDecimals_collects : Step.Collects (collectDigits 10) Number.digits :=
  collectDigits_collects (by decide) Byte.digitValue_lt_ten

theorem run_exponent (r : Reader) :
    exponent.run r = .ok (.number, r.collected (Number.exponent r.rest)) := by
  have hcollects : Step.Collects _ Number.exponent :=
    opened_collects ((collectIf_collects Byte.isSign).followedBy collectDecimals_collects)
  have hstep : exponent.step r = .ok (done, r.collected (Number.exponent r.rest)) := by
    show (_ >>= _) = _
    rw [hcollects r]
    rfl
  rw [run_of_step rfl hstep, run_of_kind? rfl]

theorem run_fraction (r : Reader) :
    fraction.run r = .ok (.number, r.collected (Number.pointed r.rest)) := by
  have hcollects : Step.Collects _ Number.fraction := opened_collects collectDecimals_collects
  have hstep : fraction.step r = .ok (exponent, r.collected (Number.fraction r.rest)) := by
    show (_ >>= _) = _
    rw [hcollects r]
    rfl
  rw [run_of_step rfl hstep, run_exponent, Reader.collected_collected]
  rfl

theorem run_mantissa (r : Reader) :
    mantissa.run r = .ok (.number, r.collected (Number.decimal r.rest)) := by
  have hstep : mantissa.step r = .ok (fraction, r.collected (Number.digits r.rest)) := by
    show (_ >>= _) = _
    rw [collectDecimals_collects r]
    rfl
  rw [run_of_step rfl hstep, run_fraction, Reader.collected_collected]
  rfl

theorem run_hexadecimal (r : Reader) :
    hexadecimal.run r = .ok (.number, r.collected (Span.run Byte.isHexDigit r.rest)) := by
  have hcollects : Step.Collects (collectDigits 16) (Span.run Byte.isHexDigit) :=
    collectDigits_collects (by decide) fun b => rfl
  have hstep : hexadecimal.step r =
      .ok (done, r.collected (Span.run Byte.isHexDigit r.rest)) := by
    show (_ >>= _) = _
    rw [hcollects r]
    rfl
  rw [run_of_step rfl hstep, run_of_kind? rfl]

/-- Digits are a run of radix eight, and go on if a late one comes next. -/
theorem digits_eq_of_octal (s : Bytes) :
    let octal := Span.run (fun b => Byte.isDigit b && !Byte.isLateDigit b) s
    let isLate := (s.drop octal.length).head?.any Byte.isLateDigit
    Number.digits s = octal ++ (if isLate then Number.digits (s.drop octal.length) else []) ∧
      (Number.digits s).any Byte.isLateDigit = isLate := by
  induction s with
  | nil => exact ⟨rfl, rfl⟩
  | cons b s ih =>
    cases hd : Byte.isDigit b with
    | false =>
      -- Both runs stop here, and so does the search for a late digit.
      have hl : Byte.isLateDigit b = false := by
        cases hl : Byte.isLateDigit b with
        | false => rfl
        | true => rw [Byte.isDigit_of_isLateDigit hl] at hd; cases hd
      simp [Span.run, Number.digits, hd, hl]
    | true =>
      cases hl : Byte.isLateDigit b with
      | true => simp [Span.run, Number.digits, hd, hl]
      | false =>
        -- The first run takes the byte, and goes on like the run of all digits.
        simp only [Number.digits, Span.run, List.takeWhile_cons, hd, hl, Bool.not_false,
          Bool.and_true, if_true, List.length_cons, List.drop_succ_cons, List.any_cons,
          Bool.false_or, List.cons_append] at ih ⊢
        exact ⟨congrArg _ ih.1, ih.2⟩

/-- The digits of a number of radix eight are collected in two runs. -/
theorem step_octal (r : Reader) :
    let ds := Number.digits r.rest
    octal.step r = .ok
      (if Number.startsFraction (r.rest.drop ds.length) then fraction
        else if ds.any Byte.isLateDigit then illegalOctal else done, r.collected ds) := by
  intro ds
  have hoctal := collectDigits_collects (by decide) Byte.digitValue_lt_eight r
  obtain ⟨hds, hlate⟩ := digits_eq_of_octal r.rest
  generalize Span.run (fun b => Byte.isDigit b && !Byte.isLateDigit b) r.rest = o at *
  -- The second run is empty, unless a late digit ends the first.
  have hrest : (if (r.collected o).peek?.any Byte.isLateDigit then
      collectDigits 10 (r.collected o) else .ok (r.collected o)) = .ok (r.collected ds) := by
    show (if (r.rest.drop o.length).head?.any Byte.isLateDigit then _ else _) = _
    split at hds
    · next h =>
      rw [if_pos h, collectDecimals_collects, Reader.collected_collected, Reader.rest_collected,
        ← hds]
    · next h =>
      rw [List.append_nil] at hds
      rw [if_neg h, ← hds]
  have hfraction : (r.collected ds).peek?.any (fun b => b == Byte.dot || Byte.isExponentMark b) =
      Number.startsFraction (r.rest.drop ds.length) := by
    show (r.rest.drop ds.length).head?.any _ = _
    cases r.rest.drop ds.length <;> rfl
  show (_ >>= _) = _
  rw [hoctal, ok_bind]
  show (_ >>= _) = _
  rw [hrest, ok_bind, hfraction, hlate]
  split
  · rfl
  · rfl

/-- Behind a zero: digits that are malformed, or a decimal number. -/
theorem run_octal (r : Reader) :
    let ds := Number.digits r.rest
    octal.run r = .ok
      (if ds.any Byte.isLateDigit && !Number.startsFraction (r.rest.drop ds.length) then
        (.malformed, r.collected ds)
      else (.number, r.collected (Number.decimal r.rest))) := by
  intro ds
  have hdecimal : Number.decimal r.rest = ds ++ Number.pointed (r.rest.drop ds.length) := rfl
  rw [run_of_step rfl (step_octal r), hdecimal]
  -- Where no fraction follows, the rest of a decimal number is empty.
  cases hf : Number.startsFraction (r.rest.drop ds.length) with
  | true =>
    rw [if_pos rfl, run_fraction, Reader.collected_collected, Bool.not_true, Bool.and_false]
    rfl
  | false =>
    rw [if_neg Bool.false_ne_true, Number.pointed_eq_nil.2 hf, List.append_nil]
    cases ds.any Byte.isLateDigit with
    | true => exact run_of_kind? rfl _
    | false => exact run_of_kind? rfl _

theorem run_leadingZero {r : Reader} {s : Bytes} (hr : r.rest = Byte.zero :: s) :
    leadingZero.run r =
      .ok ((Lexeme.number r.rest).kind, r.collected (Lexeme.number r.rest).source) := by
  have hrest : (r.collected [Byte.zero]).rest = s := by
    rw [Reader.rest_collected, hr]
    rfl
  have hcollect := Reader.collect_eq hr
  rw [hr]
  cases hmark : s.head?.any Byte.isRadixMark with
  | true =>
    -- The mark is collected with the zero, and the digits of radix sixteen after it.
    obtain ⟨mark, hhead, hmark'⟩ := (Option.any_eq_true _ _).1 hmark
    obtain ⟨s, rfl⟩ := List.head?_eq_some_iff.1 hhead
    have hstep : leadingZero.step r = .ok (hexadecimal, r.collected [Byte.zero, mark]) := by
      show (_ >>= _) = _
      rw [hcollect, ok_bind]
      show (if (r.collected [Byte.zero]).rest.head?.any Byte.isRadixMark = true then _ else _) = _
      rw [hrest, List.head?_cons, Option.any_some, if_pos hmark', Reader.collect_eq hrest,
        Reader.collected_collected]
      rfl
    have hnumber : Lexeme.number (Byte.zero :: mark :: s) =
        .verbatim .number ([Byte.zero, mark] ++ Span.run Byte.isHexDigit s) := by
      simp [Lexeme.number, Number.startsHexadecimal, Number.hexadecimal, Span.opened, hmark']
    rw [run_of_step rfl hstep, run_hexadecimal, Reader.collected_collected, hnumber,
      Reader.rest_collected, hr]
    rfl
  | false =>
    -- The spans are measured from the zero on, the machine stands behind it already.
    have hstep : leadingZero.step r = .ok (octal, r.collected [Byte.zero]) := by
      show (_ >>= _) = _
      rw [hcollect, ok_bind]
      show (if (r.collected [Byte.zero]).rest.head?.any Byte.isRadixMark = true then _ else _) = _
      rw [hrest, hmark]
      rfl
    have hstarts : Number.startsHexadecimal (Byte.zero :: s) = false := by
      cases s with
      | nil => rfl
      | cons mark s => exact hmark
    have hdigits : Number.digits (Byte.zero :: s) = Byte.zero :: Number.digits s := rfl
    have hdecimal : Number.decimal (Byte.zero :: s) = Byte.zero :: Number.decimal s := rfl
    have hillegal : Number.isIllegalOctal (Byte.zero :: s) =
        ((Number.digits s).any Byte.isLateDigit &&
          !Number.startsFraction (s.drop (Number.digits s).length)) := by
      rw [Number.isIllegalOctal, hdigits]
      rfl
    rw [run_of_step rfl hstep, run_octal, Lexeme.number, hstarts, hillegal, hrest]
    split
    · rw [Reader.collected_collected, hdigits]
      rfl
    · rw [Reader.collected_collected, hdecimal]
      rfl

/-- **Result**: the machine takes the number that starts with a digit. -/
theorem run_start {r : Reader} {b : UInt8} {s : Bytes} (hr : r.rest = b :: s) :
    start.run r = .ok ((Lexeme.number r.rest).kind, r.collected (Lexeme.number r.rest).source) := by
  by_cases hb : b = Byte.zero
  · subst hb
    have hstep : start.step r = .ok (leadingZero, r) := by
      show Except.ok (if r.rest.head? = some Byte.zero then leadingZero else mantissa, r) = _
      rw [hr]
      rfl
    rw [run_of_step rfl hstep]
    exact run_leadingZero hr
  · have hstep : start.step r = .ok (mantissa, r) := by
      show Except.ok (if r.rest.head? = some Byte.zero then leadingZero else mantissa, r) = _
      rw [hr, if_neg (by simpa using hb)]
    -- Without a zero at its head, a number is decimal.
    have hstarts : Number.startsHexadecimal r.rest = false := by
      rw [hr]
      cases s with
      | nil => rfl
      | cons mark s => simp [Number.startsHexadecimal, hb]
    have hillegal : Number.isIllegalOctal r.rest = false := by
      rw [hr]
      cases hd : Byte.isDigit b <;> simp [Number.isIllegalOctal, Number.digits, Span.run, hd, hb]
    rw [run_of_step rfl hstep, run_mantissa, Lexeme.number, hstarts, hillegal]
    rfl

/-- Reads the number that starts with a point, which was passed already. -/
def runPointed (r : Reader) : Except EndOfInput (TokenKind × Reader) := do
  exponent.run (← collectDigits 10 (r.push Byte.dot))

theorem runPointed_eq (s : Bytes) (p : Nat) :
    runPointed ⟨⟨s, p + 1⟩, []⟩ = .ok (.number,
      Reader.collected ⟨⟨Byte.dot :: s, p⟩, []⟩ (Number.pointed (Byte.dot :: s))) := by
  show (_ >>= _) = _
  rw [collectDecimals_collects, ok_bind, run_exponent, Reader.collected_collected]
  exact congrArg (fun r => Except.ok (TokenKind.number, r)) (Reader.collected_cons ..).symm

end NumberState

end SqlTokens
