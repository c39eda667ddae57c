import SqlTokens.Proofs.Lookahead
import SqlTokens.Proofs.Stepwise.Number
import SqlTokens.Scanner

/-! # The rules of the lexer, byte by byte

    Each rule as a reader follows it: it looks at the byte that comes next, passes
    or collects it, and goes on.  What it finds is what the rule measures off at
    once, and no byte is refused to it (`Stepwise.read_eq`).

    Loops end because each of their rounds passes a byte. -/

namespace SqlTokens.Stepwise

/-- What a rule has found, with the place behind it. -/
structure Finding where
  kind : TokenKind
  content : Content
  cursor : Cursor
  deriving DecidableEq

namespace Finding

/-- A lexeme that was found at `c`. -/
def ofLexeme (l : Lexeme) (c : Cursor) : Finding :=
  ⟨l.kind, l.content, c.rest.drop l.source.length, c.position + l.source.length⟩

/-- The bytes that a reader collected. -/
def text (kind : TokenKind) (r : Reader) : Finding :=
  ⟨kind, .text r.buffer, r.cursor⟩

/-- An operator, which was passed already. -/
def sign (op : Operator) (r : Reader) : Finding :=
  ⟨.operator op, .absent, r.cursor⟩

end Finding

/-! ## Words, placeholders and numbers -/

/-- Collects the next byte, whatever it is, and the bytes of the class `q` after it. -/
def collectHeaded (q : UInt8 → Bool) : Step := fun r =>
  r.collect >>= collectWhile (Option.any q)

/-- The word that starts with the next byte. -/
def word (r : Reader) : Except EndOfInput Finding := do
  let r ← collectHeaded Byte.isWordByte r
  let lowered := r.buffer.map Byte.toLower
  match Keyword.ofSpelling? lowered with
  | some k => return ⟨.keyword k, .text lowered, r.cursor⟩
  | none => return .text .identifier r

/-- The placeholder whose colon comes next. -/
def named (r : Reader) : Except EndOfInput Finding := do
  let r ← collectHeaded Byte.isNameByte r
  return .text (if r.buffer.length = 1 then .malformed else .placeholder) r

/-- The number whose first digit comes next. -/
def number (r : Reader) : Except EndOfInput Finding := do
  let (kind, r) ← NumberState.start.run r
  return .text kind r

theorem collectHeaded_eq (q : UInt8 → Bool) (b : UInt8) (s : Bytes) (p : Nat) :
    collectHeaded q ⟨⟨b :: s, p⟩, []⟩ =
      .ok (Reader.collected ⟨⟨b :: s, p⟩, []⟩ (b :: Span.run q s)) := by
  have hcollects : Step.Collects (collectWhile (Option.any q)) (Span.run q) :=
    collectWhile_collects (fun b => rfl) rfl
  rw [collectHeaded, Reader.collect_cons, ok_bind, hcollects, Reader.collected_cons]
  rfl

theorem word_eq {b : UInt8} (hb : Byte.isLetter b = true) (s : Bytes) (p : Nat) :
    word ⟨⟨b :: s, p⟩, []⟩ = .ok (.ofLexeme (Lexeme.word (b :: s)) ⟨b :: s, p⟩) := by
  have hrun : Span.run Byte.isWordByte (b :: s) = b :: Span.run Byte.isWordByte s := by
    simp [Span.run, Byte.isWordByte, hb]
  show (_ >>= _) = _
  rw [collectHeaded_eq, ok_bind, Lexeme.word, hrun]
  -- The buffer holds the word as it is written, which is looked up in lower case.
  dsimp only [Reader.collected, List.nil_append]
  cases Keyword.ofSpelling? (List.map Byte.toLower (b :: Span.run Byte.isWordByte s)) with
  | none => rfl
  | some k => rfl

theorem named_eq (s : Bytes) (p : Nat) :
    named ⟨⟨Byte.colon :: s, p⟩, []⟩ =
      .ok (.ofLexeme (Lexeme.named s) ⟨Byte.colon :: s, p⟩) := by
  show (_ >>= _) = _
  rw [collectHeaded_eq, ok_bind, Lexeme.named]
  cases Span.run Byte.isNameByte s with
  | nil => rfl
  | cons c name => rfl

theorem number_eq (b : UInt8) (s : Bytes) (p : Nat) :
    number ⟨⟨b :: s, p⟩, []⟩ = .ok (.ofLexeme (Lexeme.number (b :: s)) ⟨b :: s, p⟩) := by
  have htext : ∀ s, (Lexeme.number s).content = .text (Lexeme.number s).source := by
    intro s
    unfold Lexeme.number
    split
    · rfl
    · split <;> rfl
  show (_ >>= _) = _
  rw [NumberState.run_start rfl, ok_bind, Finding.ofLexeme]
  simp only [Reader.rest_mk, htext]
  rfl

/-! ## Comments -/

/-- Collects the rest of the line, with its newline. -/
def collectLine (r : Reader) : Except EndOfInput Reader :=
  match r.peek? with
  | none => .ok r
  | some b =>
    match _h : r.collect with
    | .error e => .error e
    | .ok next => if b = Byte.newline then .ok next else collectLine next
termination_by r.rest.length
decreasing_by exact Reader.length_rest_collect _h

/-- Collects everything up to the first `*/`, and says whether there is one. -/
def collectBlock (r : Reader) : Except EndOfInput (Bool × Reader) :=
  match r.peek? with
  | none => .ok (false, r)
  | some b =>
    match _h : r.collect with
    | .error e => .error e
    | .ok next =>
      if b = Byte.star ∧ next.peek? = some Byte.slash then do return (true, ← next.collect)
      else collectBlock next
termination_by r.rest.length
decreasing_by exact Reader.length_rest_collect _h

theorem collectLine_cons (b : UInt8) (s : Bytes) (p : Nat) (buffer : Bytes) :
    collectLine ⟨⟨b :: s, p⟩, buffer⟩ =
      if b = Byte.newline then .ok ⟨⟨s, p + 1⟩, buffer ++ [b]⟩
      else collectLine ⟨⟨s, p + 1⟩, buffer ++ [b]⟩ := by
  rw [collectLine]
  simp only [Reader.peek?_mk, List.head?_cons]
  split
  · next e he => cases he
  · next next hnext =>
    cases hnext
    rfl

theorem collectBlock_cons (b : UInt8) (s : Bytes) (p : Nat) (buffer : Bytes) :
    collectBlock ⟨⟨b :: s, p⟩, buffer⟩ =
      if b = Byte.star ∧ s.head? = some Byte.slash then do
        return (true, ← Reader.collect ⟨⟨s, p + 1⟩, buffer ++ [b]⟩)
      else collectBlock ⟨⟨s, p + 1⟩, buffer ++ [b]⟩ := by
  rw [collectBlock]
  simp only [Reader.peek?_mk, List.head?_cons]
  split
  · next e he => cases he
  · next next hnext =>
    cases hnext
    rfl

theorem collectLine_collects : Step.Collects collectLine Comment.line := by
  rintro ⟨⟨s, p⟩, buffer⟩
  induction s generalizing p buffer with
  | nil =>
    rw [collectLine]
    simp [Comment.line]
  | cons b s ih =>
    rw [collectLine_cons, Reader.rest_mk, Comment.line_cons]
    split
    · rw [Reader.collected_cons, Reader.collected_nil]
    · rw [ih, Reader.collected_cons, Reader.rest_mk]

theorem collectBlock_eq (r : Reader) :
    collectBlock r = .ok ((Comment.block r.rest).2, r.collected (Comment.block r.rest).1) := by
  obtain ⟨⟨s, p⟩, buffer⟩ := r
  induction s generalizing p buffer with
  | nil =>
    rw [collectBlock]
    simp [Comment.block, Comment.blockOnto]
  | cons b s ih =>
    rw [collectBlock_cons, ih]
    -- A star closes the comment only together with the byte behind it.
    cases s with
    | nil =>
      simp [Comment.block, Comment.blockOnto, Reader.collected_cons]
    | cons c s =>
      simp only [Reader.rest_mk, Comment.block_cons_cons, List.head?_cons, Option.some.injEq]
      split
      · rw [Reader.collect_cons, Reader.collected_cons, Reader.collected_cons,
          Reader.collected_nil]
        rfl
      · rw [Reader.collected_cons]

/-- The rest of a comment to the end of the line, whose opening was passed already. -/
def lineComment (opening : Bytes) (r : Reader) : Except EndOfInput Finding := do
  return .text .comment (← collectLine ⟨r.cursor, opening⟩)

/-- The rest of a block comment, whose opening was passed already. -/
def blockComment (r : Reader) : Except EndOfInput Finding := do
  let (isClosed, r) ← collectBlock ⟨r.cursor, [Byte.slash, Byte.star]⟩
  return .text (if isClosed then .comment else .malformed) r

theorem lineComment_eq (b c : UInt8) (s : Bytes) (p : Nat) (buffer : Bytes) :
    lineComment [b, c] ⟨⟨s, p + 2⟩, buffer⟩ =
      .ok (.ofLexeme (Lexeme.lineComment [b, c] s) ⟨b :: c :: s, p⟩) := by
  show (_ >>= _) = _
  rw [collectLine_collects, ok_bind]
  have h := (Reader.collected_cons b (c :: s) (c :: Comment.line s) p []).trans
    (Reader.collected_cons c s (Comment.line s) (p + 1) [b])
  exact congrArg (fun r => Except.ok (Finding.text .comment r)) h.symm

theorem blockComment_eq (s : Bytes) (p : Nat) (buffer : Bytes) :
    blockComment ⟨⟨s, p + 2⟩, buffer⟩ =
      .ok (.ofLexeme (Lexeme.blockComment s) ⟨Byte.slash :: Byte.star :: s, p⟩) := by
  show (_ >>= _) = _
  rw [collectBlock_eq, ok_bind]
  have h := (Reader.collected_cons Byte.slash (Byte.star :: s) (Byte.star :: (Comment.block s).1)
    p []).trans (Reader.collected_cons Byte.star s (Comment.block s).1 (p + 1) [Byte.slash])
  exact congrArg (fun r => Except.ok (Finding.text
    (if (Comment.block s).2 then .comment else .malformed) r)) h.symm

/-! ## Quoted literals -/

/-- The rest of a literal whose opening delimiter `d` was passed already. -/
def readQuoted (d : UInt8) (kind : TokenKind) (r : Reader) :
    Except EndOfInput (TokenKind × Reader) :=
  match r.peek? with
  | none => .ok (.malformed, r)
  | some b =>
    match _hb : r.pass with
    | .error e => .error e
    | .ok after =>
      if b = d then
        match _hd : after.passIf d with
        | .error e => .error e
        | .ok (false, next) => .ok (kind, next)
        | .ok (true, next) => readQuoted d kind (next.push b)
      else if b = Byte.backslash then
        match after.peek? with
        | none => .ok (.malformed, after)
        | some code =>
          match _hc : after.pass with
          | .error e => .error e
          | .ok next => readQuoted d kind (next.push (Escape.decode code))
      else readQuoted d kind (after.push b)
termination_by r.rest.length
decreasing_by
  all_goals have hlt := Reader.length_rest_pass _hb
  · have hle := Reader.length_rest_passIf _hd
    exact Nat.lt_of_le_of_lt hle hlt
  · have hlt' := Reader.length_rest_pass _hc
    exact Nat.lt_trans hlt' hlt
  · exact hlt

/-- The literal whose opening delimiter `d` was passed already. -/
def quoted (d : UInt8) (kind : TokenKind) (r : Reader) : Except EndOfInput Finding := do
  let (kind, r) ← readQuoted d kind ⟨r.cursor, []⟩
  return .text kind r

section
variable {d : UInt8} {kind : TokenKind}

/-- One round of reading a literal, without the evidence that it ends. -/
theorem readQuoted_round (r : Reader) :
    readQuoted d kind r =
      (match r.peek? with
      | none => .ok (.malformed, r)
      | some b => do
        let after ← r.pass
        if b = d then
          let (passed, next) ← after.passIf d
          if passed then readQuoted d kind (next.push b) else return (kind, next)
        else if b = Byte.backslash then
          match after.peek? with
          | none => return (.malformed, after)
          | some code => readQuoted d kind ((← after.pass).push (Escape.decode code))
        else readQuoted d kind (after.push b)) := by
  -- The evidence that is matched on says what each action gives, and goes no further.
  rw [readQuoted]
  split
  · rfl
  · split
    · next e he => rw [he]; rfl
    · next after hafter =>
      rw [hafter, ok_bind]
      split
      · split
        · next e he => rw [he]; rfl
        · next next hnext => rw [hnext]; rfl
        · next next hnext => rw [hnext]; rfl
      · split
        · split
          · rfl
          · split
            · next e he => rw [he]; rfl
            · next next hnext => rw [hnext]; rfl
        · rfl

theorem readQuoted_nil (p : Nat) (buffer : Bytes) :
    readQuoted d kind ⟨⟨[], p⟩, buffer⟩ = .ok (.malformed, ⟨⟨[], p⟩, buffer⟩) := by
  rw [readQuoted_round]
  rfl

theorem readQuoted_closed {s : Bytes} (hs : s.head? ≠ some d) (p : Nat) (buffer : Bytes) :
    readQuoted d kind ⟨⟨d :: s, p⟩, buffer⟩ = .ok (kind, ⟨⟨s, p + 1⟩, buffer⟩) := by
  rw [readQuoted_round]
  simp only [Reader.peek?_mk, List.head?_cons, Reader.pass_cons, ok_bind, if_true,
    Reader.passIf_of_ne _ _ hs, Bool.false_eq_true, if_false]
  rfl

theorem readQuoted_doubled (s : Bytes) (p : Nat) (buffer : Bytes) :
    readQuoted d kind ⟨⟨d :: d :: s, p⟩, buffer⟩ =
      readQuoted d kind ⟨⟨s, p + 2⟩, buffer ++ [d]⟩ := by
  rw [readQuoted_round]
  simp [Reader.passIf_cons_self, ok_bind]

theorem readQuoted_brokenEscape (hd : d ≠ Byte.backslash) (p : Nat) (buffer : Bytes) :
    readQuoted d kind ⟨⟨[Byte.backslash], p⟩, buffer⟩ =
      .ok (.malformed, ⟨⟨[], p + 1⟩, buffer⟩) := by
  rw [readQuoted_round]
  simp [hd.symm, ok_bind]
  rfl

theorem readQuoted_escaped (hd : d ≠ Byte.backslash) (c : UInt8) (s : Bytes) (p : Nat)
    (buffer : Bytes) :
    readQuoted d kind ⟨⟨Byte.backslash :: c :: s, p⟩, buffer⟩ =
      readQuoted d kind ⟨⟨s, p + 2⟩, buffer ++ [Escape.decode c]⟩ := by
  rw [readQuoted_round]
  simp [hd.symm, ok_bind]

theorem readQuoted_plain {b : UInt8} (h : Quoted.Item.IsProper d (.plain b)) (s : Bytes) (p : Nat)
    (buffer : Bytes) :
    readQuoted d kind ⟨⟨b :: s, p⟩, buffer⟩ =
      readQuoted d kind ⟨⟨s, p + 1⟩, buffer ++ [b]⟩ := by
  obtain ⟨hd, hb⟩ := h
  rw [readQuoted_round]
  simp [hd, hb, ok_bind]

end

/-- What is read of a literal: its kind, and the reader that collected what it denotes. -/
def quotedAfter (d : UInt8) (kind : TokenKind) (r : Reader) : TokenKind × Reader :=
  let body := Quoted.body d r.rest
  (if body.ending = .closed then kind else .malformed,
    ⟨(r.collected (body.source d)).cursor, r.buffer ++ body.value d⟩)

/-- An item at the head may be read first. -/
theorem quotedAfter_item {d : UInt8} {kind : TokenKind} {item : Quoted.Item} {s : Bytes}
    (h : Quoted.body d (item.source d ++ s) = (Quoted.body d s).prepend [item]) (p : Nat)
    (buffer : Bytes) :
    quotedAfter d kind ⟨⟨item.source d ++ s, p⟩, buffer⟩ =
      quotedAfter d kind ⟨⟨s, p + (item.source d).length⟩, buffer ++ [item.meaning d]⟩ := by
  simp [quotedAfter, h, Quoted.Body.prepend, Quoted.Body.source, Quoted.Body.value,
    Reader.collected, Nat.add_assoc]
  rfl

theorem readQuoted_eq {d : UInt8} (hd : d ≠ Byte.backslash) (kind : TokenKind) (s : Bytes)
    (p : Nat) (buffer : Bytes) :
    readQuoted d kind ⟨⟨s, p⟩, buffer⟩ = .ok (quotedAfter d kind ⟨⟨s, p⟩, buffer⟩) := by
  -- By induction on what is left; each round but the last passes one item.
  induction hn : s.length using Nat.strongRecOn generalizing s p buffer with
  | ind n ih =>
    subst hn
    cases s with
    | nil =>
      rw [readQuoted_nil]
      simp [quotedAfter, Quoted.body_nil, Quoted.Body.source, Quoted.Body.value,
        Quoted.Ending.source]
    | cons b s =>
      by_cases hb : b = d
      · subst hb
        by_cases hs : s.head? = some b
        · obtain ⟨s, rfl⟩ := List.head?_eq_some_iff.1 hs
          have hitem : Quoted.body b (Quoted.Item.source b .doubled ++ s) = _ :=
            Quoted.body_doubled s
          have hlt : s.length < (b :: b :: s).length := by
            simp only [List.length_cons]
            omega
          rw [readQuoted_doubled, ih s.length hlt s _ _ rfl]
          exact congrArg _ (quotedAfter_item hitem p buffer).symm
        · rw [readQuoted_closed hs]
          simp [quotedAfter, Quoted.body_closed hs, Quoted.Body.source, Quoted.Body.value,
            Quoted.Ending.source, Reader.collected]
      · by_cases hbackslash : b = Byte.backslash
        · subst hbackslash
          cases s with
          | nil =>
            have hbody : Quoted.body d [Byte.backslash] = ⟨[], .brokenEscape⟩ := by
              simp [Quoted.body, Quoted.bodyOnto, hb]
            rw [readQuoted_brokenEscape hd]
            simp [quotedAfter, hbody, Quoted.Body.source, Quoted.Body.value,
              Quoted.Ending.source, Reader.collected]
          | cons c s =>
            have hitem : Quoted.body d (Quoted.Item.source d (.escaped c) ++ s) = _ :=
              Quoted.body_escaped hd c s
            have hlt : s.length < (Byte.backslash :: c :: s).length := by
              simp only [List.length_cons]
              omega
            rw [readQuoted_escaped hd, ih s.length hlt s _ _ rfl]
            exact congrArg _ (quotedAfter_item hitem p buffer).symm
        · have hproper : Quoted.Item.IsProper d (.plain b) := ⟨hb, hbackslash⟩
          have hitem : Quoted.body d (Quoted.Item.source d (.plain b) ++ s) = _ :=
            Quoted.body_plain hproper s
          rw [readQuoted_plain hproper, ih s.length (by simp) s _ _ rfl]
          exact congrArg _ (quotedAfter_item hitem p buffer).symm

theorem quoted_eq {d : UInt8} (hd : d ≠ Byte.backslash) (kind : TokenKind) (s : Bytes) (p : Nat)
    (buffer : Bytes) :
    quoted d kind ⟨⟨s, p + 1⟩, buffer⟩ =
      .ok (.ofLexeme (Lexeme.quoted kind d s) ⟨d :: s, p⟩) := by
  show (_ >>= _) = _
  rw [readQuoted_eq hd, ok_bind]
  simp only [quotedAfter, Finding.text, Finding.ofLexeme, Lexeme.quoted, Reader.collected,
    List.length_cons, List.drop_succ_cons, List.nil_append, Nat.add_assoc, Nat.add_comm 1]
  rfl

/-! ## Signs -/

/-- A slash, which was passed already. -/
def slash (r : Reader) : Except EndOfInput Finding :=
  match r.peek? with
  | some Byte.slash => do lineComment [Byte.slash, Byte.slash] (← r.pass)
  | some Byte.star => do blockComment (← r.pass)
  | _ => .ok (.sign .divide r)

/-- A `<`, which was passed already. -/
def less (r : Reader) : Except EndOfInput Finding := do
  let (isNotEqual, r) ← r.passIf Byte.greater
  if isNotEqual then return .sign .notEqual r
  let (isLessEqual, r) ← r.passIf Byte.equals
  if isLessEqual then
    let (isNullSafe, r) ← r.passIf Byte.greater
    return .sign (if isNullSafe then .nullSafeEqual else .lessEqual) r
  return .sign .less r

/-- What the byte `b`, which was passed already, starts.  Letters, digits and colons
    are not passed before they are read. -/
def sign (b : UInt8) (r : Reader) : Except EndOfInput Finding :=
  match b with
  | Byte.question => .ok ⟨.placeholder, .ordinal, r.cursor⟩
  | Byte.dot =>
    if r.peek?.any Byte.isDigit then do
      let (kind, r) ← NumberState.runPointed ⟨r.cursor, []⟩
      return .text kind r
    else .ok (.sign .dot r)
  | Byte.slash => slash r
  | Byte.dash => do
    let (isComment, r) ← r.passIf Byte.dash
    if isComment then lineComment [Byte.dash, Byte.dash] r else return .sign .minus r
  | Byte.less => less r
  | Byte.greater => do
    let (isGreaterEqual, r) ← r.passIf Byte.equals
    return .sign (if isGreaterEqual then .greaterEqual else .greater) r
  | Byte.bang => do
    let (isNotEqual, r) ← r.passIf Byte.equals
    return if isNotEqual then .sign .notEqual r else .text .malformed ⟨r.cursor, [Byte.bang]⟩
  | Byte.quote => quoted b .string r
  | Byte.doubleQuote => quoted b .string r
  | Byte.backtick => quoted b .identifier r
  | _ => .ok (.text .malformed ⟨r.cursor, [b]⟩)

/-- The lexeme that starts with the byte `b`, which comes next and is no blank. -/
def read (b : UInt8) (r : Reader) : Except EndOfInput Finding :=
  if Byte.isLetter b then word r
  else if Byte.isDigit b then number r
  else if b = Byte.colon then named r
  else do
    let r ← r.pass
    match Operator.ofSelfDelimiting? b with
    | some op => return .sign op r
    | none => sign b r

section
variable (s : Bytes) (p : Nat)

theorem dot_eq : sign Byte.dot ⟨⟨s, p + 1⟩, []⟩ =
    .ok (.ofLexeme (Lexeme.afterDot s) ⟨Byte.dot :: s, p⟩) := by
  show (if s.head?.any Byte.isDigit then _ else _) = _
  unfold Lexeme.afterDot
  split
  · show (_ >>= _) = _
    rw [NumberState.runPointed_eq]
    rfl
  · rfl

theorem slash_eq : slash ⟨⟨s, p + 1⟩, []⟩ =
    .ok (.ofLexeme (Lexeme.afterSlash s) ⟨Byte.slash :: s, p⟩) := by
  rcases Lexeme.afterSlash_cases s with ⟨r, rfl, hl⟩ | ⟨r, rfl, hl⟩ | ⟨hslash, hstar, hl⟩
  · exact lineComment_eq _ _ _ p []
  · exact blockComment_eq _ p []
  · rw [hl]
    unfold slash
    split
    · next h => exact absurd h hslash
    · next h => exact absurd h hstar
    · rfl

theorem dash_eq : sign Byte.dash ⟨⟨s, p + 1⟩, []⟩ =
    .ok (.ofLexeme (Lexeme.afterDash s) ⟨Byte.dash :: s, p⟩) := by
  show (_ >>= _) = _
  rcases Lexeme.afterDash_cases s with ⟨r, rfl, hl⟩ | ⟨hdash, hl⟩
  · rw [Reader.passIf_cons_self]
    exact lineComment_eq _ _ _ p []
  · rw [Reader.passIf_of_ne _ _ hdash, hl]
    rfl

theorem less_eq : less ⟨⟨s, p + 1⟩, []⟩ =
    .ok (.ofLexeme (Lexeme.afterLess s) ⟨Byte.less :: s, p⟩) := by
  show (_ >>= _) = _
  -- Bytes that are not passed are looked at again: first for `<>`, then for `<=`.
  have hne : ∀ r, (Byte.equals :: r).head? ≠ some Byte.greater := fun r hr => by cases hr
  rcases Lexeme.afterLess_cases s with
    ⟨r, rfl, hl⟩ | ⟨r, rfl, hl⟩ | ⟨r, rfl, hgreater, hl⟩ | ⟨hgreater, hequals, hl⟩
  · rw [Reader.passIf_cons_self, hl]
    rfl
  · rw [Reader.passIf_of_ne _ _ (hne _), hl]
    rfl
  · rw [Reader.passIf_of_ne _ _ (hne _), hl, ok_bind]
    show (_ >>= _) = _
    rw [Reader.passIf_cons_self, ok_bind]
    show (_ >>= _) = _
    rw [Reader.passIf_of_ne _ _ hgreater]
    rfl
  · rw [Reader.passIf_of_ne _ _ hgreater, hl, ok_bind]
    show (_ >>= _) = _
    rw [Reader.passIf_of_ne _ _ hequals]
    rfl

theorem greater_eq : sign Byte.greater ⟨⟨s, p + 1⟩, []⟩ =
    .ok (.ofLexeme (Lexeme.afterGreater s) ⟨Byte.greater :: s, p⟩) := by
  show (_ >>= _) = _
  rcases Lexeme.afterGreater_cases s with ⟨r, rfl, hl⟩ | ⟨hequals, hl⟩
  · rw [Reader.passIf_cons_self, hl]
    rfl
  · rw [Reader.passIf_of_ne _ _ hequals, hl]
    rfl

theorem bang_eq : sign Byte.bang ⟨⟨s, p + 1⟩, []⟩ =
    .ok (.ofLexeme (Lexeme.afterBang s) ⟨Byte.bang :: s, p⟩) := by
  show (_ >>= _) = _
  rcases Lexeme.afterBang_cases s with ⟨r, rfl, hl⟩ | ⟨hequals, hl⟩
  · rw [Reader.passIf_cons_self, hl]
    rfl
  · rw [Reader.passIf_of_ne _ _ hequals, hl]
    rfl

end

/-! ## The whole lexeme -/

theorem read_of_sign {b : UInt8} (hletter : Opening.of b ≠ .letter)
    (hdigit : Opening.of b ≠ .digit) (hcolon : Opening.of b ≠ .colon) (s : Bytes) (p : Nat) :
    read b ⟨⟨b :: s, p⟩, []⟩ =
      match Operator.ofSelfDelimiting? b with
      | some op => .ok (.sign op ⟨⟨s, p + 1⟩, []⟩)
      | none => sign b ⟨⟨s, p + 1⟩, []⟩ := by
  have hl := Opening.isLetter_eq_false hletter
  have hd := Opening.isDigit_eq_false hletter hdigit
  have hc : b ≠ Byte.colon := by
    rintro rfl
    exact hcolon rfl
  rw [read, hl, hd, if_neg Bool.false_ne_true, if_neg Bool.false_ne_true, if_neg hc,
    Reader.pass_cons, ok_bind]
  rfl

/-- **No refusal**: whatever comes next and whatever is left, the rule that reads it
    is refused no byte, and finds the lexeme. -/
theorem read_eq (b : UInt8) (s : Bytes) (p : Nat) :
    read b ⟨⟨b :: s, p⟩, []⟩ = .ok (.ofLexeme (Lexeme.read b s) ⟨b :: s, p⟩) := by
  -- The opening says which of the tests succeeds first.
  have hb := Opening.announces_of b
  unfold Lexeme.read
  cases ho : Opening.of b with
  | letter =>
    have hletter : Byte.isLetter b = true := by rwa [ho] at hb
    rw [read, if_pos hletter]
    exact word_eq hletter s p
  | digit =>
    have hletter : Byte.isLetter b = false := Opening.isLetter_eq_false (by simp [ho])
    have hdigit : Byte.isDigit b = true := by rwa [ho] at hb
    rw [read, hletter, if_neg Bool.false_ne_true, if_pos hdigit]
    exact number_eq b s p
  | colon =>
    rw [ho] at hb
    cases hb
    exact named_eq s p
  | single op =>
    have hop : Operator.ofSelfDelimiting? b = some op := by rwa [ho] at hb
    rw [read_of_sign (by simp [ho]) (by simp [ho]) (by simp [ho])]
    simp only [hop]
    rfl
  | question =>
    rw [ho] at hb
    cases hb
    rfl
  | dot =>
    rw [ho] at hb
    cases hb
    exact dot_eq s p
  | slash =>
    rw [ho] at hb
    cases hb
    exact slash_eq s p
  | dash =>
    rw [ho] at hb
    cases hb
    exact dash_eq s p
  | less =>
    rw [ho] at hb
    cases hb
    exact less_eq s p
  | greater =>
    rw [ho] at hb
    cases hb
    exact greater_eq s p
  | bang =>
    rw [ho] at hb
    cases hb
    exact bang_eq s p
  | delimiter kind =>
    rw [ho] at hb
    rcases hb with ⟨rfl | rfl, rfl⟩ | ⟨rfl, rfl⟩
    · exact quoted_eq (by decide) _ s p []
    · exact quoted_eq (by decide) _ s p []
    · exact quoted_eq (by decide) _ s p []
  | stray =>
    have hsingle : Operator.ofSelfDelimiting? b = none :=
      Opening.ofSelfDelimiting?_eq_none (by simp [ho]) (by simp [ho]) (by simp [ho])
    rw [read_of_sign (by simp [ho]) (by simp [ho]) (by simp [ho])]
    simp only [hsingle, sign]
    -- Each byte that `sign` knows has another opening.
    split
    all_goals first
      | exact absurd ho (by decide)
      | rfl

end SqlTokens.Stepwise
