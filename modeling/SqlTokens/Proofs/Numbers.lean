import SqlTokens.Proofs.Boundary
import SqlTokens.Proofs.Stepwise.Number

/-! # Where a number ends

    A number is put together from runs of digits, each of which is as long as it can be.
    What comes behind a number is part of its grammar for that reason, and only for that:
    a run is the longest if no byte of its class follows.

    * **Grammar**: `Number.IsNumber`, with a fraction and an exponent that may be missing.
      It takes an input apart in one way (`Number.IsNumber.unique`), and it does so
      wherever a number starts (`Number.Starts.exists_isNumber`).
    * **Spans**: the rules of the lexer take what the grammar says
      (`Number.IsNumber.read_eq`).
    * **Scanning**: `Lexer.scan_number`, also for the machine of nine states. -/

namespace SqlTokens

open Utf8 (ofString)

/-! ## Longest runs -/

/-- `run` is of the class `p`, and what comes behind it goes on with no byte of the class. -/
structure IsRun (p : UInt8 → Bool) (run tail : Bytes) : Prop where
  forall_mem : ∀ b ∈ run, p b = true
  isLongest : tail.head?.any p = false

theorem IsRun.run_eq {p : UInt8 → Bool} {run tail : Bytes} (h : IsRun p run tail) :
    Span.run p (run ++ tail) = run := by
  have htail : tail.takeWhile p = [] := by
    cases tail with
    | nil => rfl
    | cons b tail => exact List.takeWhile_cons_of_neg (Bool.eq_false_iff.1 h.isLongest)
  rw [Span.run, List.takeWhile_append_of_pos h.forall_mem, htail, List.append_nil]

/-- An input has one longest run at its head. -/
theorem IsRun.unique {p : UInt8 → Bool} {run tail run' tail' : Bytes} (h : IsRun p run tail)
    (h' : IsRun p run' tail') (hs : run ++ tail = run' ++ tail') : run' = run ∧ tail' = tail := by
  have hrun : run' = run := by rw [← h.run_eq, hs, h'.run_eq]
  rw [hrun] at hs
  exact ⟨hrun, (List.append_cancel_left hs).symm⟩

/-- Every input has a longest run at its head, which may be empty. -/
theorem exists_isRun (p : UInt8 → Bool) (s : Bytes) :
    ∃ run tail, s = run ++ tail ∧ IsRun p run tail := by
  refine ⟨s.takeWhile p, s.dropWhile p, List.takeWhile_append_dropWhile.symm, ?_, ?_⟩
  · exact List.all_eq_true.1 List.all_takeWhile
  · have hhead := List.head?_dropWhile_not p s
    cases htail : (s.dropWhile p).head? with
    | none => rfl
    | some b =>
      rw [htail] at hhead
      exact hhead

/-- A byte of the class at the head belongs to the run. -/
theorem IsRun.ne_nil {p : UInt8 → Bool} {b : UInt8} {s run tail : Bytes} (h : IsRun p run tail)
    (hb : p b = true) (hs : b :: s = run ++ tail) : run ≠ [] := by
  rintro rfl
  rw [List.nil_append] at hs
  simpa [← hs, hb] using h.isLongest

/-! ## Openings -/

theorem Byte.isLetter_isBlank_of_isDigit {b : UInt8} (h : isDigit b = true) :
    isLetter b = false ∧ isBlank b = false := by
  simp only [isDigit, isLetter, isBlank] at h ⊢
  grind [UInt8.le_iff_toNat_le]

theorem Lexeme.read_digit {d : UInt8} (hd : Byte.isDigit d = true) (s : Bytes) :
    Byte.isBlank d = false ∧ read d s = number (d :: s) := by
  obtain ⟨hletter, hblank⟩ := Byte.isLetter_isBlank_of_isDigit hd
  have hopening : Opening.of d = .digit := by
    unfold Opening.of
    rw [hletter, if_neg Bool.false_ne_true, if_pos hd]
  refine ⟨hblank, ?_⟩
  rw [read, hopening]

theorem Lexeme.read_point {d : UInt8} (hd : Byte.isDigit d = true) (s : Bytes) :
    read Byte.dot (d :: s) = .verbatim .number (Number.pointed (Byte.dot :: d :: s)) :=
  if_pos hd

namespace Number

/-! ## The grammar -/

/-- A point and digits with `tail` behind them, or nothing if no point comes. -/
inductive IsFraction : Bytes → Bytes → Prop where
  | none {tail : Bytes} (h : tail.head? ≠ some Byte.dot) : IsFraction [] tail
  | point {ds tail : Bytes} (hds : IsRun Byte.isDigit ds tail) : IsFraction (Byte.dot :: ds) tail

/-- A mark, a sign if one comes, and digits, with `tail` behind them; or nothing if no
    mark comes. -/
inductive IsExponent : Bytes → Bytes → Prop where
  | none {tail : Bytes} (h : tail.head?.any Byte.isExponentMark = false) : IsExponent [] tail
  | unsigned {mark : UInt8} {ds tail : Bytes} (hmark : Byte.isExponentMark mark = true)
      (hsign : (ds ++ tail).head?.any Byte.isSign = false) (hds : IsRun Byte.isDigit ds tail) :
      IsExponent (mark :: ds) tail
  | signed {mark sign : UInt8} {ds tail : Bytes} (hmark : Byte.isExponentMark mark = true)
      (hsign : Byte.isSign sign = true) (hds : IsRun Byte.isDigit ds tail) :
      IsExponent (mark :: sign :: ds) tail

/-- Digits that are of radix eight by the zero at their head, and that have an 8 or a 9
    among them, without a fraction or an exponent that would make them decimal. -/
structure IsMalformedOctal (ds tail : Bytes) : Prop where
  startsWithZero : ds.head? = some Byte.zero
  hasLateDigit : ∃ d ∈ ds, Byte.isLateDigit d = true
  endsHere : startsFraction tail = false

/-- The number at the head of an input: its kind, its source, and what is behind it. -/
inductive IsNumber : TokenKind → Bytes → Bytes → Prop where
  /-- `0x` and digits of radix sixteen, even none. -/
  | hexadecimal {mark : UInt8} {ds tail : Bytes} (hmark : Byte.isRadixMark mark = true)
      (hds : IsRun Byte.isHexDigit ds tail) : IsNumber .number (Byte.zero :: mark :: ds) tail
  /-- Digits that are of no radix. -/
  | malformed {ds tail : Bytes} (hradix : startsHexadecimal (ds ++ tail) = false)
      (hds : IsRun Byte.isDigit ds tail) (hoctal : IsMalformedOctal ds tail) :
      IsNumber .malformed ds tail
  /-- Digits, a fraction and an exponent. -/
  | decimal {ds part power tail : Bytes}
      (hradix : startsHexadecimal (ds ++ (part ++ (power ++ tail))) = false)
      (hds : IsRun Byte.isDigit ds (part ++ (power ++ tail))) (hne : ds ≠ [])
      (hoctal : ¬IsMalformedOctal ds (part ++ (power ++ tail)))
      (hpart : IsFraction part (power ++ tail)) (hpower : IsExponent power tail) :
      IsNumber .number (ds ++ (part ++ power)) tail
  /-- A fraction that has digits, and an exponent. -/
  | pointed {ds power tail : Bytes} (hds : IsRun Byte.isDigit ds (power ++ tail)) (hne : ds ≠ [])
      (hpower : IsExponent power tail) : IsNumber .number (Byte.dot :: (ds ++ power)) tail

/-- A digit, or a point and a digit. -/
inductive Starts : Bytes → Prop where
  | digit {d : UInt8} (s : Bytes) (hd : Byte.isDigit d = true) : Starts (d :: s)
  | point {d : UInt8} (s : Bytes) (hd : Byte.isDigit d = true) : Starts (Byte.dot :: d :: s)

/-! ## Every number is one by the grammar -/

theorem exists_isFraction (s : Bytes) : ∃ part tail, s = part ++ tail ∧ IsFraction part tail := by
  by_cases hpoint : s.head? = some Byte.dot
  · obtain ⟨s, rfl⟩ := List.head?_eq_some_iff.1 hpoint
    obtain ⟨ds, tail, rfl, hds⟩ := exists_isRun Byte.isDigit s
    exact ⟨Byte.dot :: ds, tail, rfl, .point hds⟩
  · exact ⟨[], s, rfl, .none hpoint⟩

theorem exists_isExponent (s : Bytes) :
    ∃ power tail, s = power ++ tail ∧ IsExponent power tail := by
  cases hmark : s.head?.any Byte.isExponentMark with
  | false => exact ⟨[], s, rfl, .none hmark⟩
  | true =>
    obtain ⟨mark, hhead, hmark⟩ := (Option.any_eq_true _ _).1 hmark
    obtain ⟨s, rfl⟩ := List.head?_eq_some_iff.1 hhead
    cases hsign : s.head?.any Byte.isSign with
    | false =>
      obtain ⟨ds, tail, rfl, hds⟩ := exists_isRun Byte.isDigit s
      exact ⟨mark :: ds, tail, rfl, .unsigned hmark hsign hds⟩
    | true =>
      obtain ⟨sign, hhead, hsign⟩ := (Option.any_eq_true _ _).1 hsign
      obtain ⟨s, rfl⟩ := List.head?_eq_some_iff.1 hhead
      obtain ⟨ds, tail, rfl, hds⟩ := exists_isRun Byte.isDigit s
      exact ⟨mark :: sign :: ds, tail, rfl, .signed hmark hsign hds⟩

/-- **Grammar**: there is a number wherever one starts. -/
theorem Starts.exists_isNumber {r : Bytes} (h : Starts r) :
    ∃ kind source tail, r = source ++ tail ∧ IsNumber kind source tail := by
  cases h with
  | point s hd =>
    rename_i d
    obtain ⟨ds, s', hs, hds⟩ := exists_isRun Byte.isDigit (d :: s)
    obtain ⟨power, tail, rfl, hpower⟩ := exists_isExponent s'
    refine ⟨.number, Byte.dot :: (ds ++ power), tail, ?_, .pointed hds (hds.ne_nil hd hs) hpower⟩
    rw [hs, List.cons_append, List.append_assoc]
  | digit s hd =>
    rename_i d
    cases hradix : startsHexadecimal (d :: s) with
    | true =>
      cases s with
      | nil => cases hradix
      | cons mark s =>
        simp only [startsHexadecimal, Bool.and_eq_true, beq_iff_eq] at hradix
        obtain ⟨rfl, hmark⟩ := hradix
        obtain ⟨ds, tail, rfl, hds⟩ := exists_isRun Byte.isHexDigit s
        exact ⟨.number, Byte.zero :: mark :: ds, tail, rfl, .hexadecimal hmark hds⟩
    | false =>
      obtain ⟨ds, s', hs, hds⟩ := exists_isRun Byte.isDigit (d :: s)
      rw [hs] at hradix
      by_cases hoctal : IsMalformedOctal ds s'
      · exact ⟨.malformed, ds, s', hs, .malformed hradix hds hoctal⟩
      · obtain ⟨part, s'', rfl, hpart⟩ := exists_isFraction s'
        obtain ⟨power, tail, rfl, hpower⟩ := exists_isExponent s''
        refine ⟨.number, ds ++ (part ++ power), tail, ?_,
          .decimal hradix hds (hds.ne_nil hd hs) hoctal hpart hpower⟩
        rw [hs, List.append_assoc, List.append_assoc]

/-! ## What the rules take -/

theorem IsFraction.fraction_eq {part tail : Bytes} (h : IsFraction part tail) :
    fraction (part ++ tail) = part := by
  cases h with
  | none h =>
    apply Span.opened_eq_nil.2
    cases tail with
    | nil => rfl
    | cons b tail => simpa using h
  | point hds => exact congrArg (Byte.dot :: ·) hds.run_eq

theorem IsExponent.exponent_eq {power tail : Bytes} (h : IsExponent power tail) :
    exponent (power ++ tail) = power := by
  cases h with
  | none h => exact Span.opened_eq_nil.2 h
  | unsigned hmark hsign hds =>
    rename_i mark ds
    have hone : Span.one Byte.isSign (ds ++ tail) = [] := by
      cases hs : ds ++ tail with
      | nil => rfl
      | cons b s =>
        rw [hs] at hsign
        exact if_neg (Bool.eq_false_iff.1 hsign)
    have hrest : (Span.one Byte.isSign).followedBy digits (ds ++ tail) = ds := by
      rw [Span.followedBy, hone]
      exact hds.run_eq
    rw [List.cons_append, exponent, Span.opened, if_pos hmark, hrest]
  | signed hmark hsign hds =>
    rename_i mark sign ds
    have hone : Span.one Byte.isSign (sign :: (ds ++ tail)) = [sign] := if_pos hsign
    have hrest : (Span.one Byte.isSign).followedBy digits (sign :: (ds ++ tail)) = sign :: ds := by
      rw [Span.followedBy, hone]
      exact congrArg (sign :: ·) hds.run_eq
    rw [List.cons_append, List.cons_append, exponent, Span.opened, if_pos hmark, hrest]

theorem isIllegalOctal_iff {ds tail : Bytes} (hds : IsRun Byte.isDigit ds tail) :
    isIllegalOctal (ds ++ tail) = true ↔ IsMalformedOctal ds tail := by
  have hdigits : digits (ds ++ tail) = ds := hds.run_eq
  simp only [isIllegalOctal, hdigits, List.drop_left, Bool.and_eq_true, beq_iff_eq,
    List.any_eq_true, Bool.not_eq_true', and_assoc]
  constructor
  · rintro ⟨hzero, hlate, hends⟩
    exact ⟨hzero, hlate, hends⟩
  · rintro ⟨hzero, hlate, hends⟩
    exact ⟨hzero, hlate, hends⟩

/-- What is behind the digits of a number is a fraction and an exponent. -/
theorem pointed_eq {part power tail : Bytes} (hpart : IsFraction part (power ++ tail))
    (hpower : IsExponent power tail) : pointed (part ++ (power ++ tail)) = part ++ power := by
  rw [pointed, Span.followedBy, hpart.fraction_eq, List.drop_left, hpower.exponent_eq]

theorem hexadecimal_eq {mark : UInt8} {ds tail : Bytes} (hmark : Byte.isRadixMark mark = true)
    (hds : IsRun Byte.isHexDigit ds tail) :
    Lexeme.number (Byte.zero :: mark :: (ds ++ tail)) =
      .verbatim .number (Byte.zero :: mark :: ds) := by
  have hstarts : startsHexadecimal (Byte.zero :: mark :: (ds ++ tail)) = true := hmark
  have hspan : hexadecimal (Byte.zero :: mark :: (ds ++ tail)) = Byte.zero :: mark :: ds := by
    have hrest : Span.opened Byte.isRadixMark (Span.run Byte.isHexDigit) (mark :: (ds ++ tail)) =
        mark :: ds := by
      rw [Span.opened, if_pos hmark, hds.run_eq]
    exact congrArg (Byte.zero :: ·) hrest
  rw [Lexeme.number, if_pos hstarts, hspan]

/-- Digits at the head of the input are read as a number. -/
theorem read_digits {ds rest : Bytes} (hds : IsRun Byte.isDigit ds rest) (hne : ds ≠ []) :
    ∃ b s, ds ++ rest = b :: s ∧ Byte.isBlank b = false ∧
      Lexeme.read b s = Lexeme.number (ds ++ rest) := by
  obtain ⟨d, ds, rfl⟩ := List.exists_cons_of_ne_nil hne
  have hd : Byte.isDigit d = true := hds.forall_mem d List.mem_cons_self
  obtain ⟨hblank, hread⟩ := Lexeme.read_digit hd (ds ++ rest)
  exact ⟨d, ds ++ rest, rfl, hblank, hread⟩

/-- **Spans**: the rules take the number that the grammar says is there. -/
theorem IsNumber.read_eq {kind : TokenKind} {source tail : Bytes}
    (h : IsNumber kind source tail) :
    ∃ b s, source ++ tail = b :: s ∧ Byte.isBlank b = false ∧
      Lexeme.read b s = .verbatim kind source := by
  cases h with
  | hexadecimal hmark hds => exact ⟨_, _, rfl, rfl, hexadecimal_eq hmark hds⟩
  | malformed hradix hds hoctal =>
    have hne : source ≠ [] := by
      rintro rfl
      cases hoctal.startsWithZero
    have hdigits : digits (source ++ tail) = source := hds.run_eq
    obtain ⟨b, s, hs, hblank, hread⟩ := read_digits hds hne
    refine ⟨b, s, hs, hblank, ?_⟩
    rw [hread, Lexeme.number, hradix, (isIllegalOctal_iff hds).2 hoctal, hdigits]
    rfl
  | decimal hradix hds hne hoctal hpart hpower =>
    rename_i ds part power
    have hspan : Number.decimal (ds ++ (part ++ (power ++ tail))) = ds ++ (part ++ power) := by
      have hdigits : digits (ds ++ (part ++ (power ++ tail))) = ds := hds.run_eq
      rw [Number.decimal, Span.followedBy, hdigits, List.drop_left]
      exact congrArg (ds ++ ·) (pointed_eq hpart hpower)
    have hlegal := Bool.eq_false_iff.2 (mt (isIllegalOctal_iff hds).1 hoctal)
    obtain ⟨b, s, hs, hblank, hread⟩ := read_digits hds hne
    refine ⟨b, s, ?_, hblank, ?_⟩
    · rw [← hs, List.append_assoc, List.append_assoc]
    · rw [hread, Lexeme.number, hradix, hlegal, hspan]
      rfl
  | pointed hds hne hpower =>
    rename_i ds power
    have hspan : Number.pointed (Byte.dot :: (ds ++ (power ++ tail))) = Byte.dot :: (ds ++ power) :=
      pointed_eq (.point hds) hpower
    obtain ⟨d, ds, rfl⟩ := List.exists_cons_of_ne_nil hne
    have hd : Byte.isDigit d = true := hds.forall_mem d List.mem_cons_self
    refine ⟨Byte.dot, d :: (ds ++ (power ++ tail)), by simp, rfl, ?_⟩
    rw [Lexeme.read_point hd]
    exact congrArg (Lexeme.verbatim .number) hspan

/-- There is one way to take an input apart at its number. -/
theorem IsNumber.unique {kind kind' : TokenKind} {source tail source' tail' : Bytes}
    (h : IsNumber kind source tail) (h' : IsNumber kind' source' tail')
    (hs : source ++ tail = source' ++ tail') :
    kind' = kind ∧ source' = source ∧ tail' = tail := by
  obtain ⟨b, s, hb, -, hread⟩ := h.read_eq
  obtain ⟨b', s', hb', -, hread'⟩ := h'.read_eq
  obtain ⟨rfl, rfl⟩ := List.cons.inj (hb.symm.trans (hs.trans hb'))
  have hlexeme := hread'.symm.trans hread
  obtain rfl : source' = source := congrArg Lexeme.source hlexeme
  exact ⟨congrArg Lexeme.kind hlexeme, rfl, (List.append_cancel_left hs).symm⟩

end Number

/-! ## The machine -/

namespace NumberState

/-- The machine that sets out at `r` stops after six steps at the most, at `after`, with a
    number of this kind. -/
def Halts (r after : Reader) (kind : TokenKind) : Prop :=
  ∃ n ≤ 6, ∃ last, (enter r >>= steps n) = .ok (last, after) ∧ last.kind? = some kind

theorem halts_of_run {r first after : Reader} {state : NumberState} {kind : TokenKind}
    (henter : enter r = .ok (state, first)) (hrank : state.rank ≤ 6)
    (hrun : state.run first = .ok (kind, after)) : Halts r after kind := by
  obtain ⟨n, hn, last, hsteps, hlast⟩ := exists_steps hrun
  refine ⟨n, Nat.le_trans hn hrank, last, ?_, hlast⟩
  rw [henter, ok_bind, hsteps]

/-- The machine takes the lexeme that starts like a number. -/
theorem halts_of_starts {b : UInt8} {s : Bytes} (h : Number.Starts (b :: s)) (p : Nat) :
    Halts ⟨⟨b :: s, p⟩, []⟩ (Reader.collected ⟨⟨b :: s, p⟩, []⟩ (Lexeme.read b s).source)
      (Lexeme.read b s).kind := by
  cases h with
  | digit _ hd =>
    have hdot : ¬some b = some Byte.dot := by
      rintro ⟨⟩
      cases hd
    have henter : enter ⟨⟨b :: s, p⟩, []⟩ = .ok (start, ⟨⟨b :: s, p⟩, []⟩) := if_neg hdot
    rw [(Lexeme.read_digit hd s).2]
    exact halts_of_run henter (Nat.le_refl _) (run_start rfl)
  | point s hd =>
    rename_i d
    -- The point and the digits behind it are passed on the way to the first state.
    obtain ⟨first, hcollect⟩ : ∃ first,
        collectDigits 10 (Reader.push ⟨⟨d :: s, p + 1⟩, []⟩ Byte.dot) = .ok first :=
      ⟨_, collectDecimals_collects _⟩
    have hrun := runPointed_eq (d :: s) p
    rw [runPointed, hcollect, ok_bind] at hrun
    have henter : enter ⟨⟨Byte.dot :: d :: s, p⟩, []⟩ = .ok (exponent, first) := by
      show (collectDigits 10 (Reader.push ⟨⟨d :: s, p + 1⟩, []⟩ Byte.dot) >>= _) = _
      rw [hcollect]
      rfl
    rw [Lexeme.read_point hd s]
    exact halts_of_run henter (by decide) hrun

end NumberState

/-! ## Scanning -/

/-- **Numbers**: where a number starts, the lexer takes the one number that the grammar
    gives, and its text is all that it took.  The machine stops behind it. -/
theorem Lexer.scan_number {lx : Lexer} {blanks r : Bytes} (h : lx.StandsBefore blanks r)
    (hr : Number.Starts r) :
    ∃ kind source tail, Number.IsNumber kind source tail ∧ r = source ++ tail ∧
      (∀ kind' source' tail', Number.IsNumber kind' source' tail' → r = source' ++ tail' →
        kind' = kind ∧ source' = source ∧ tail' = tail) ∧
      lx.Takes blanks source tail kind source ∧
      NumberState.Halts ⟨⟨r, lx.position + blanks.length⟩, []⟩
        ⟨⟨tail, lx.position + blanks.length + source.length⟩, source⟩ kind := by
  obtain ⟨kind, source, tail, rfl, hnumber⟩ := hr.exists_isNumber
  obtain ⟨b, s, hs, hblank, hread⟩ := hnumber.read_eq
  refine ⟨kind, source, tail, hnumber, rfl, fun _ _ _ => hnumber.unique, ?_, ?_⟩
  · rw [hs] at h
    exact h.takes hblank hread hs.symm
  · have hhalts := NumberState.halts_of_starts (hs ▸ hr) (lx.position + blanks.length)
    rw [hread, ← hs] at hhalts
    simpa [Lexeme.verbatim, Reader.collected] using hhalts

/-- A zero, an 8 and an exponent without digits, in front of a word. -/
theorem Lexer.scan_number_late :
    (start (ofString " 0178.5e+x")).StandsBefore [0x20] (ofString "0178.5e+x") ∧
    Number.Starts (ofString "0178.5e+x") ∧
    (start (ofString " 0178.5e+x")).Takes [0x20] (ofString "0178.5e+") (ofString "x") .number
      (ofString "0178.5e+") := by
  have h : (start (ofString " 0178.5e+x")).StandsBefore [0x20] (ofString "0178.5e+x") :=
    standsBefore_start (List.forall_mem_singleton.2 rfl) _
  have hr : Number.Starts (ofString "0178.5e+x") := .digit (ofString "178.5e+x") rfl
  have hsource : ofString "0178.5e+" = ofString "0178" ++ (ofString ".5" ++ ofString "e+") := by
    decide +kernel
  have hzero : IsRun Byte.isDigit (ofString "0178") (ofString ".5e+x") := ⟨by decide +kernel, rfl⟩
  have hfive : IsRun Byte.isDigit (ofString "5") (ofString "e+x") := ⟨by decide +kernel, rfl⟩
  have hnone : IsRun Byte.isDigit [] (ofString "x") := ⟨nofun, rfl⟩
  have hpower : Number.IsExponent (ofString "e+") (ofString "x") := .signed rfl rfl hnone
  have hlegal : ¬Number.IsMalformedOctal (ofString "0178") (ofString ".5e+x") := by
    intro hoctal
    cases hoctal.endsHere
  have hnumber : Number.IsNumber .number (ofString "0178.5e+") (ofString "x") := by
    rw [hsource]
    exact .decimal rfl hzero (by decide) hlegal (.point hfive) hpower
  obtain ⟨kind, source, tail, -, -, hunique, htakes, -⟩ := scan_number h hr
  obtain ⟨rfl, rfl, rfl⟩ := hunique _ _ _ hnumber (by decide +kernel)
  exact ⟨h, hr, htakes⟩

end SqlTokens
