import SqlTokens.Literal.Escape
import SqlTokens.Proofs.Coverage
import SqlTokens.Proofs.Displacement
import SqlTokens.Proofs.Lookahead

/-! # Substitution of literals

    A string literal that is written by `Escape.encode` is read back, whatever
    bytes it denotes and whatever follows it, a quote apart
    (`Lexeme.read_encode`).  So it may take the place of a `?` in a statement: no
    token before or after it changes, but for its position and for the names that
    are made for the `?` that come later (`scanned_substitute`).  In particular no
    literal can break out of its place. -/

namespace SqlTokens

open Utf8 (ofString)

/-! ## Written literals -/

namespace Escape

/-- The item by which a byte is written inside a string literal. -/
def item (b : UInt8) : Quoted.Item :=
  match code? b with
  | some code => .escaped code
  | none => .plain b

theorem mem_pairs {b code : UInt8} (h : code? b = some code) : (b, code) ∈ pairs := by
  obtain ⟨pair, hf, rfl⟩ := Option.map_eq_some_iff.1 h
  have hb := List.find?_some hf
  rw [beq_iff_eq] at hb
  rw [← hb]
  exact List.mem_of_find?_eq_some hf

/-- A code denotes the byte that it is the code of. -/
theorem decode_code {b code : UInt8} (h : code? b = some code) : decode code = b := by
  have hall : pairs.all (fun pair => decode pair.2 == pair.1) = true := by decide
  exact beq_iff_eq.1 (List.all_eq_true.1 hall _ (mem_pairs h))

theorem item_source (b : UInt8) : (item b).source Byte.quote = encodeByte b := by
  unfold item encodeByte
  cases code? b with
  | some code => rfl
  | none => rfl

theorem item_meaning (b : UInt8) : (item b).meaning Byte.quote = b := by
  unfold item
  cases h : code? b with
  | some code => exact decode_code h
  | none => rfl

theorem item_isProper (b : UInt8) : (item b).IsProper Byte.quote := by
  unfold item
  cases h : code? b with
  | some code => trivial
  | none =>
    -- A byte that is written as itself has no code, but these two have one.
    have hquote : code? Byte.quote ≠ none := by decide
    have hbackslash : code? Byte.backslash ≠ none := by decide
    constructor
    · rintro rfl
      exact hquote h
    · rintro rfl
      exact hbackslash h

theorem encode_eq (v : Bytes) :
    encode v = Byte.quote :: ((v.map item).flatMap (Quoted.Item.source Byte.quote) ++
      [Byte.quote]) := by
  rw [List.flatMap_map]
  simp only [item_source]
  rfl

end Escape

/-- **Round trip**: a written literal is read back, whatever follows it but a quote. -/
theorem Lexeme.read_encode (v : Bytes) {s : Bytes} (hs : s.head? ≠ some Byte.quote) :
    ∃ more, Escape.encode v = Byte.quote :: more ∧
      read Byte.quote (more ++ s) = ⟨.string, Escape.encode v, .text v⟩ := by
  refine ⟨_, Escape.encode_eq v, ?_⟩
  show quoted .string Byte.quote _ = _
  rw [List.append_assoc, List.singleton_append,
    quoted_map _ (by decide) Escape.item_isProper Escape.item_meaning v hs, Escape.encode_eq]

/-! ## The place of a token -/

/-- A token that starts at a byte of the input cuts it there: before it are segments
    and blanks, and it is the lexeme that is read from that byte on. -/
theorem exists_cut_at {a s : Bytes} {b : UInt8} {x : Scanned} (hx : x ∈ scanned (a ++ b :: s))
    (hp : x.token.position = a.length + 1) :
    ∃ gs blanks gs' more tail, a = Segment.join gs ++ blanks ∧ IsBlank blanks ∧
      s = more ++ tail ∧ (Lexeme.read b s).source = b :: more ∧ Cuts tail gs' ∧
      Cuts (a ++ b :: s) (gs ++ ⟨blanks, Lexeme.read b s⟩ :: gs') := by
  obtain ⟨gs, hgs⟩ := exists_cuts (a ++ b :: s)
  obtain ⟨ending, hending, hin⟩ := hgs.exists_join
  rw [scanned_eq_layout hgs, Segment.stream, List.mem_append, List.mem_singleton] at hx
  rcases hx with hx | rfl
  · obtain ⟨before, after, hsplit⟩ := List.append_of_mem hx
    obtain ⟨gs₁, g, gs₂, rfl, rfl, -, -, -, hposition, -⟩ := place_of_layout hsplit ending
    obtain ⟨rest, hrest, hcut⟩ := hgs.tail
    cases hcut with
    | @lexeme blanks more tail c _ hblanks hc hread htail =>
      have hplace : a.length + 1 = 1 + (Segment.join gs₁).length + blanks.length := by
        rw [← hp, hposition, stopAfter_layout]
      have hbytes : a ++ b :: s = Segment.join gs₁ ++ blanks ++ c :: (more ++ tail) :=
        hrest.trans (List.append_assoc _ _ _).symm
      -- The bytes before the token are as many as those of `a`, hence the same.
      have hlen : a.length = (Segment.join gs₁ ++ blanks).length := by
        rw [List.length_append]
        omega
      obtain ⟨rfl, heq⟩ := List.append_inj hbytes hlen
      obtain ⟨rfl, rfl⟩ := List.cons.inj heq
      exact ⟨gs₁, blanks, gs₂, more, tail, rfl, hblanks, rfl, hread, htail, hgs⟩
  · -- The end of the input lies behind `b`.
    have hend : 1 + (a ++ b :: s).length = a.length + 1 := hp
    simp only [List.length_append, List.length_cons] at hend
    omega

/-! ## Substitution -/

/-- What stands before a `?` that is a token is cut alike before a written literal. -/
theorem Cuts.substitute {gs gs' gs'' : List Segment} {blanks s : Bytes} (v : Bytes)
    (h : Cuts (Segment.join gs ++ (blanks ++ Byte.question :: s)) (gs ++ gs'))
    (hblanks : IsBlank blanks) (hs : s.head? ≠ some Byte.quote)
    (ha : (Segment.join gs ++ blanks).getLast? ≠ some Byte.quote) (hcut : Cuts s gs'') :
    Cuts (Segment.join gs ++ (blanks ++ (Escape.encode v ++ s)))
      (gs ++ ⟨blanks, ⟨.string, Escape.encode v, .text v⟩⟩ :: gs'') := by
  obtain ⟨more, hencode, hread⟩ := Lexeme.read_encode v hs
  -- A quote is inert, and it does not double one before it.
  have hreplaces : Replaces (Segment.join gs) (blanks ++ (Escape.encode v ++ s))
      (blanks ++ Byte.question :: s) := by
    refine ⟨fun hnil => absurd hnil (by simp), ?_⟩
    intro b hb
    cases blanks with
    | cons c blanks => exact .inl hb
    | nil =>
      obtain rfl : Byte.quote = b := by simpa [hencode] using hb
      rw [List.append_nil] at ha
      exact .inr ⟨rfl, fun _ => ha⟩
  refine h.replace hreplaces ?_
  have hsource : (Lexeme.read Byte.quote (more ++ s)).source = Byte.quote :: more := by
    rw [hread, hencode]
  have hlexeme := Cuts.lexeme hblanks rfl hsource hcut
  rwa [hread, ← List.cons_append, ← hencode] at hlexeme

/-- **No injection**: let the `?` behind `a` be a token of its own, with no quote
    right before or after it.  When a literal is written in its place, the tokens
    before it are the same, the literal is one token, which denotes `v` and ends
    where its writing ends, and the tokens after it are the same but moved, with
    each number of a `?` lowered by one. -/
theorem scanned_substitute (a s v : Bytes)
    (hq : ∃ x ∈ scanned (a ++ Byte.question :: s), x.token.position = a.length + 1)
    (ha : a.getLast? ≠ some Byte.quote) (hs : s.head? ≠ some Byte.quote) :
    ∃ before q after literal after',
      scanned (a ++ Byte.question :: s) = before ++ q :: after ∧
      scanned (a ++ (Escape.encode v ++ s)) = before ++ literal :: after' ∧
      (∀ x ∈ before, x.stop ≤ a.length + 1) ∧
      q.token = ⟨.placeholder, some (ordinalName q.ordinals), a.length + 1⟩ ∧
      literal.token = ⟨.string, some v, a.length + 1⟩ ∧
      literal.stop = a.length + (Escape.encode v).length + 1 ∧
      literal.ordinals + 1 = q.ordinals ∧
      List.Forall₂ (Scanned.Moved (a ++ Byte.question :: s) ((Escape.encode v).length - 1) (-1))
        after after' := by
  obtain ⟨x, hx, hp⟩ := hq
  obtain ⟨gs, blanks, gs', more, tail, rfl, hblanks, rfl, hsource, hcut, hcuts⟩ :=
    exists_cut_at hx hp
  obtain rfl : more = [] := (List.cons.inj hsource).2.symm
  rw [List.nil_append] at *
  have hcuts' := Cuts.substitute v (by rwa [List.append_assoc] at hcuts) hblanks hs ha hcut
  have hpos : 1 + (Segment.join gs).length + blanks.length =
      (Segment.join gs ++ blanks).length + 1 := by
    rw [List.length_append]
    omega
  have hlen : 2 ≤ (Escape.encode v).length := by simp [Escape.encode]
  -- Both streams begin with what is laid out before the place, and a token there.
  have hold := Segment.stream_cons ⟨blanks, Lexeme.read Byte.question tail⟩ gs'
    (1 + (Segment.join gs).length) (0 + Segment.ordinals gs) tail
  have hnew := Segment.stream_cons ⟨blanks, ⟨.string, Escape.encode v, .text v⟩⟩ gs'
    (1 + (Segment.join gs).length) (0 + Segment.ordinals gs) tail
  rw [scanned_eq_layout hcuts, List.append_assoc, List.append_assoc,
    scanned_eq_layout hcuts', Segment.stream_append, Segment.stream_append]
  refine ⟨_, _, _, _, _, congrArg _ hold, congrArg _ hnew, ?_, ?_, ?_, ?_, ?_, ?_⟩
  · intro x hx
    have hstop := Segment.stop_le_of_mem_layout hx
    omega
  · rw [← hpos]
    rfl
  · rw [← hpos]
    rfl
  · show 1 + (Segment.join gs).length + blanks.length + (Escape.encode v).length = _
    omega
  · rfl
  · -- What comes after is cut into the same segments, with one `?` less before them.
    have hbefore : 1 + (Segment.join gs).length + blanks.length + 1 =
        (Segment.join gs ++ blanks ++ [Byte.question]).length + 1 := by
      simp only [List.length_append, List.length_singleton]
      omega
    have hstart : ((1 + (Segment.join gs).length + blanks.length + (Escape.encode v).length : Nat) :
        Int) = ((Segment.join gs ++ blanks ++ [Byte.question]).length + 1 : Nat) +
          ((Escape.encode v).length - 1) := by
      rw [← hbefore]
      push_cast
      omega
    have hnumber : ((0 + Segment.ordinals gs : Nat) : Int) =
        (0 + Segment.ordinals gs + 1 : Nat) + (-1) := by
      push_cast
      omega
    have hmoved := Segment.stream_moved hcut (Segment.join gs ++ blanks ++ [Byte.question])
      hstart hnumber
    rw [← hbefore, List.append_assoc, List.append_assoc] at hmoved
    exact hmoved

/-- A quote for the first `?` of `(?,?)`: the second one is the first from then on. -/
theorem scanned_substitute_quote :
    (∃ x ∈ scanned (ofString "(" ++ Byte.question :: ofString ",?)"),
        x.token.position = (ofString "(").length + 1) ∧
      (ofString "(").getLast? ≠ some Byte.quote ∧ (ofString ",?)").head? ≠ some Byte.quote ∧
      ∃ before q after literal after',
        scanned (ofString "(?,?)") = before ++ q :: after ∧
        scanned (ofString "('\\'',?)") = before ++ literal :: after' ∧
        literal.token = ⟨.string, some [Byte.quote], 2⟩ ∧
        List.Forall₂ (Scanned.Moved (ofString "(?,?)") 3 (-1)) after after' := by
  have hq : ∃ x ∈ scanned (ofString "(" ++ Byte.question :: ofString ",?)"),
      x.token.position = (ofString "(").length + 1 := by decide +kernel
  have ha : (ofString "(").getLast? ≠ some Byte.quote := by decide +kernel
  have hs : (ofString ",?)").head? ≠ some Byte.quote := by decide +kernel
  obtain ⟨before, q, after, literal, after', hold, hnew, -, -, hliteral, -, -, hmoved⟩ :=
    scanned_substitute (ofString "(") (ofString ",?)") [Byte.quote] hq ha hs
  exact ⟨hq, ha, hs, before, q, after, literal, after', hold, hnew, hliteral, hmoved⟩

end SqlTokens
