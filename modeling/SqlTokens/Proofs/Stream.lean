import SqlTokens.Lexer.Basic
import SqlTokens.Proofs.Segment

/-! # The scan stream

    The tokens that a lexer hands out to one who scans to the end of the input,
    each with the state of the lexer right after it.  It is the segments of the
    input, laid out: every segment gets a position and every `?` among them a
    number (`Lexer.stream_eq_layout`).  Positions and numbers only depend on what
    lies before, so that a layout can be taken apart (`layout_append`). -/

namespace SqlTokens

/-- A token with the state of the lexer right after it was scanned. -/
structure Scanned where
  token : Token
  /-- The position of the lexer after the token. -/
  stop : Nat
  /-- How many placeholders without a name were passed, the token among them. -/
  ordinals : Nat
  deriving DecidableEq

/-- The part of an input between two positions, which are counted from one. -/
def slice (input : Bytes) (start stop : Nat) : Bytes :=
  (input.drop (start - 1)).take (stop - start)

/-- The bytes that a token stands for. -/
def Scanned.source (input : Bytes) (x : Scanned) : Bytes :=
  slice input x.token.position x.stop

/-- What can be seen of a pull. -/
def Scanned.ofPull (pull : Lexer.Pull) : Scanned :=
  ⟨pull.1, pull.2.position, pull.2.ordinals⟩

/-- The scan stream of a lexer, through the end of the input. -/
def Lexer.stream (lx : Lexer) : List Scanned :=
  (lx.wholeCourse .everything).pulls.map Scanned.ofPull

/-- The scan stream of a fresh lexer. -/
def scanned (input : Bytes) : List Scanned :=
  (Lexer.start input).stream

/-! ## Slices -/

theorem slice_middle (before x after : Bytes) :
    slice (before ++ (x ++ after)) (before.length + 1) (before.length + 1 + x.length) = x := by
  have hd : (before ++ (x ++ after)).drop (before.length + 1 - 1) = x ++ after := by simp
  have ht : before.length + 1 + x.length - (before.length + 1) = x.length := by omega
  rw [slice, hd, ht]
  exact List.take_left

/-- A token that is laid out behind `before` and its blanks stands for its source. -/
theorem Scanned.source_middle (before blanks source after : Bytes) (kind : TokenKind)
    (value : Option Bytes) (n : Nat) :
    Scanned.source (before ++ (blanks ++ (source ++ after)))
      ⟨⟨kind, value, before.length + 1 + blanks.length⟩,
        before.length + 1 + blanks.length + source.length, n⟩ = source := by
  have h := slice_middle (before ++ blanks) source after
  simp only [List.length_append, List.append_assoc, Nat.add_right_comm _ _ 1] at h
  exact h

theorem getElem?_slice_start {input : Bytes} {start stop : Nat} (h : start < stop) :
    (slice input start stop).head? = input[start - 1]? := by
  obtain ⟨n, hn⟩ : ∃ n, stop - start = n + 1 := ⟨stop - start - 1, by omega⟩
  rw [slice, hn, List.head?_take, if_neg (by omega), List.head?_drop]

/-! ## Courses, one pull at a time -/

namespace Lexer

/-- A course after one more pull. -/
def Course.cons (pull : Pull) (c : Course) : Course :=
  ⟨pull :: c.before, c.last⟩

@[simp] theorem Course.pulls_cons (pull : Pull) (c : Course) :
    (c.cons pull).pulls = pull :: c.pulls := rfl

theorem Course.tokens_eq (c : Course) :
    c.tokens = (c.pulls.map Scanned.ofPull).map Scanned.token := by
  rw [tokens, List.map_map]
  rfl

/-- One round of a course. -/
theorem courseOnto_of_pull {view : View} {lx after : Lexer} {token : Token}
    (h : lx.pull view = (token, after)) (stops : Token → Bool) (before : List Pull) :
    courseOnto view stops before lx =
      if token.kind = .endOfInput ∨ stops token then ⟨before.reverse, token, after⟩
      else courseOnto view stops ((token, after) :: before) after := by
  rw [courseOnto]
  split
  next token' after' h' =>
    cases h'.symm.trans h
    rfl

/-- The pulls that come before a course do not matter to it. -/
theorem courseOnto_append (view : View) (stops : Token → Bool) (before earlier : List Pull)
    (lx : Lexer) :
    courseOnto view stops (before ++ earlier) lx =
      ⟨earlier.reverse ++ (courseOnto view stops before lx).before,
        (courseOnto view stops before lx).last⟩ := by
  -- By induction on the pulls that are still to come.
  induction before, lx using courseOnto.induct view stops with
  | case1 before lx token after h hends =>
    rw [courseOnto_of_pull h, courseOnto_of_pull h, if_pos hends, if_pos hends,
      List.reverse_append]
  | case2 before lx token after h hends ih =>
    rw [courseOnto_of_pull h, courseOnto_of_pull h, if_neg hends, if_neg hends]
    exact ih

theorem course_eq (lx : Lexer) (view : View) (stops : Token → Bool) :
    lx.course view stops =
      if (lx.pull view).1.kind = .endOfInput ∨ stops (lx.pull view).1 then
        ⟨[], lx.pull view⟩
      else ((lx.pull view).2.course view stops).cons (lx.pull view) := by
  cases h : lx.pull view with
  | mk token after =>
    rw [course, courseOnto_of_pull h]
    split
    · rfl
    · exact courseOnto_append view stops [] [(token, after)] after

theorem next_eq (lx : Lexer) :
    lx.next =
      if lx.scan.1.kind = .comment ∧ !lx.showsComments then lx.scan.2.next
      else (lx.scan.1, { lx.scan.2 with lastText := lx.scan.1.value }) := by
  rw [next]
  split
  next token after h =>
    rw [h]
    split
    · rfl
    · rfl

/-- A property that scans keep, and to which the last text does not matter. -/
structure IsKept (P : Lexer → Prop) : Prop where
  scan : ∀ lx : Lexer, P lx → P lx.scan.2
  lastText : ∀ (lx : Lexer) (text : Option Bytes), P lx → P { lx with lastText := text }

namespace IsKept

variable {P : Lexer → Prop}

theorem next (hP : IsKept P) (lx : Lexer) (h : P lx) : P lx.next.2 := by
  -- By induction on the comments that are passed over.
  fun_induction Lexer.next lx with
  | case1 lx token after hs hc ih =>
    have hscan := hP.scan lx h
    rw [hs] at hscan
    exact ih hscan
  | case2 lx token after hs hc =>
    have hscan := hP.scan lx h
    rw [hs] at hscan
    exact hP.lastText after token.value hscan

theorem pull (hP : IsKept P) (view : View) (lx : Lexer) (h : P lx) : P (lx.pull view).2 := by
  cases view with
  | everything => exact hP.scan lx h
  | shown => exact hP.next lx h

/-- What scans keep, a course keeps to its last pull. -/
theorem courseOnto (hP : IsKept P) (view : View) (stops : Token → Bool) (before : List Pull)
    (lx : Lexer) (h : P lx) : P (courseOnto view stops before lx).last.2 := by
  -- By induction on the pulls of the course.
  induction before, lx using courseOnto.induct view stops with
  | case1 before lx token after hpull hends =>
    have hnext := hP.pull view lx h
    rw [hpull] at hnext
    rw [courseOnto_of_pull hpull, if_pos hends]
    exact hnext
  | case2 before lx token after hpull hends ih =>
    have hnext := hP.pull view lx h
    rw [hpull] at hnext
    rw [courseOnto_of_pull hpull, if_neg hends]
    exact ih hnext

end IsKept

theorem stream_eq (lx : Lexer) :
    lx.stream = Scanned.ofPull lx.scan ::
      if lx.scan.1.kind = .endOfInput then [] else lx.scan.2.stream := by
  rw [stream, wholeCourse, course_eq]
  by_cases h : lx.scan.1.kind = .endOfInput
  · simp [pull, h, Course.pulls]
  · simp [pull, h, stream, wholeCourse]

end Lexer

/-! ## Moves of a cursor -/

namespace Cursor

theorem skip_append (x t : Bytes) (p : Nat) :
    Cursor.skip x.length ⟨x ++ t, p⟩ = ⟨t, p + x.length⟩ := by
  induction x generalizing p with
  | nil => rfl
  | cons b x ih =>
    have hp : p + (b :: x).length = p + 1 + x.length := by
      simp only [List.length_cons]
      omega
    rw [hp]
    exact ih (p + 1)

theorem skipWhile_append {q : UInt8 → Bool} {x : Bytes} (hx : ∀ b ∈ x, q b = true) {t : Bytes}
    (ht : t.takeWhile q = []) (p : Nat) :
    skipWhile q ⟨x ++ t, p⟩ = ⟨t, p + x.length⟩ := by
  have hw : (x ++ t).takeWhile q = x := by
    rw [List.takeWhile_append_of_pos hx, ht, List.append_nil]
  rw [skipWhile, hw, skip_append]

end Cursor

/-! ## One segment of a scanner -/

namespace Scanner

theorem next_blank {s : Bytes} (hs : IsBlank s) (p n : Nat) :
    next ⟨⟨s, p⟩, n⟩ = (⟨.endOfInput, none, p + s.length⟩, ⟨⟨[], p + s.length⟩, n⟩) := by
  have h := Cursor.skipWhile_append hs (t := []) rfl p
  rw [List.append_nil] at h
  simp [next, h]

theorem next_lexeme {blanks : Bytes} (hs : IsBlank blanks) {b : UInt8}
    (hb : Byte.isBlank b = false) {more tail : Bytes}
    (hr : (Lexeme.read b (more ++ tail)).source = b :: more) (p n : Nat) :
    next ⟨⟨blanks ++ b :: (more ++ tail), p⟩, n⟩ =
      let l := Lexeme.read b (more ++ tail)
      let ordinals := l.content.count n
      (⟨l.kind, l.content.value? ordinals, p + blanks.length⟩,
        ⟨⟨tail, p + blanks.length + l.source.length⟩, ordinals⟩) := by
  have h := Cursor.skipWhile_append hs (t := b :: (more ++ tail)) (by simp [hb]) p
  have ht := Cursor.skip_append (b :: more) tail (p + blanks.length)
  simpa [next, h, hr] using ht

end Scanner

/-! ## Layouts -/

namespace Segment

/-- How many of these segments are a `?`. -/
def ordinals (gs : List Segment) : Nat :=
  gs.countP fun g => g.lexeme.content = .ordinal

/-- The tokens of segments, when they start at position `p` and `n` placeholders
    without a name come before. -/
def layout (p n : Nat) : List Segment → List Scanned
  | [] => []
  | g :: gs =>
    let l := g.lexeme
    let ordinals := l.content.count n
    let stop := p + g.blanks.length + l.source.length
    ⟨⟨l.kind, l.content.value? ordinals, p + g.blanks.length⟩, stop, ordinals⟩
      :: layout stop ordinals gs

theorem count_eq (n : Nat) (c : Content) :
    c.count n = n + if c = .ordinal then 1 else 0 := by
  cases c <;> rfl

@[simp] theorem ordinals_nil : ordinals [] = 0 := rfl

theorem ordinals_cons (g : Segment) (gs : List Segment) (n : Nat) :
    n + ordinals (g :: gs) = g.lexeme.content.count n + ordinals gs := by
  rw [ordinals, List.countP_cons, count_eq]
  simp only [decide_eq_true_eq, ordinals]
  omega

theorem layout_append (gs gs' : List Segment) (p n : Nat) :
    layout p n (gs ++ gs') =
      layout p n gs ++ layout (p + (join gs).length) (n + ordinals gs) gs' := by
  induction gs generalizing p n with
  | nil => rfl
  | cons g gs ih =>
    have hp : p + g.blanks.length + g.lexeme.source.length + (join gs).length =
        p + (join (g :: gs)).length := by
      simp only [join_cons, List.length_append]
      omega
    simp only [List.cons_append, layout, ih, hp, ordinals_cons]

@[simp] theorem length_layout (p n : Nat) (gs : List Segment) :
    (layout p n gs).length = gs.length := by
  induction gs generalizing p n with
  | nil => rfl
  | cons g gs ih => simp [layout, ih]

/-- No token of a layout reaches behind its last byte. -/
theorem stop_le_of_mem_layout {gs : List Segment} {p n : Nat} {x : Scanned}
    (hx : x ∈ layout p n gs) : x.stop ≤ p + (join gs).length := by
  induction gs generalizing p n with
  | nil => exact absurd hx List.not_mem_nil
  | cons g gs ih =>
    simp only [join_cons, List.length_append]
    rcases List.mem_cons.1 hx with rfl | hx
    · show p + g.blanks.length + g.lexeme.source.length ≤ _
      omega
    · have hstop := ih hx
      omega

/-- What a layout is taken apart into are the layouts of two parts of the segments. -/
theorem layout_eq_append {gs : List Segment} {p n : Nat} {xs ys : List Scanned}
    (h : layout p n gs = xs ++ ys) :
    ∃ gs₁ gs₂, gs = gs₁ ++ gs₂ ∧ xs = layout p n gs₁ ∧
      ys = layout (p + (join gs₁).length) (n + ordinals gs₁) gs₂ := by
  -- A layout has one token for each segment, so the lengths say where to cut.
  have hgs : gs.take xs.length ++ gs.drop xs.length = gs := List.take_append_drop _ gs
  have hlen : (layout p n (gs.take xs.length)).length = xs.length := by
    have := congrArg List.length h
    simp only [length_layout, List.length_append] at this
    simp only [length_layout, List.length_take]
    omega
  rw [← hgs, layout_append] at h
  obtain ⟨hx, hy⟩ := List.append_inj h hlen
  exact ⟨_, _, hgs.symm, hx.symm, hy.symm⟩

end Segment

/-- The end of the input as the scan stream shows it. -/
def Scanned.ending (p n : Nat) : Scanned :=
  ⟨⟨.endOfInput, none, p⟩, p, n⟩

/-- The end stands for no bytes. -/
@[simp] theorem Scanned.source_ending (input : Bytes) (p n : Nat) :
    (Scanned.ending p n).source input = [] := by
  simp [Scanned.source, Scanned.ending, slice]

/-- The scan stream of an input `s` with these segments, when it starts at position
    `p` and `n` placeholders without a name come before. -/
def Segment.stream (p n : Nat) (s : Bytes) (gs : List Segment) : List Scanned :=
  layout p n gs ++ [.ending (p + s.length) (n + ordinals gs)]

namespace Segment

theorem ordinals_append (gs gs' : List Segment) :
    ordinals (gs ++ gs') = ordinals gs + ordinals gs' :=
  List.countP_append

theorem stream_append (gs gs' : List Segment) (p n : Nat) (s : Bytes) :
    stream p n (join gs ++ s) (gs ++ gs') =
      layout p n gs ++ stream (p + (join gs).length) (n + ordinals gs) s gs' := by
  rw [stream, stream, layout_append, ordinals_append, List.length_append, List.append_assoc,
    Nat.add_assoc, Nat.add_assoc]

theorem stream_cons (g : Segment) (gs : List Segment) (p n : Nat) (s : Bytes) :
    stream p n (g.blanks ++ (g.lexeme.source ++ s)) (g :: gs) =
      let ordinals := g.lexeme.content.count n
      let start := p + g.blanks.length
      ⟨⟨g.lexeme.kind, g.lexeme.content.value? ordinals, start⟩,
        start + g.lexeme.source.length, ordinals⟩
        :: stream (start + g.lexeme.source.length) ordinals s gs := by
  simp only [stream, layout, List.cons_append, List.length_append, ordinals_cons, Nat.add_assoc]

end Segment

theorem Lexeme.kind_ne_endOfInput (b : UInt8) (rest : Bytes) :
    (read b rest).kind ≠ .endOfInput := by
  -- No source spells the end of the input.
  intro h
  have hs := read_isSpelled b rest
  rw [IsSpelled, h] at hs
  exact hs

/-- **Layout**: the scan stream is the segments of the input, laid out, and its end. -/
theorem Lexer.stream_eq_layout {lx : Lexer} (ht : lx.isTruncated = false) {gs : List Segment}
    (h : Cuts lx.scanner.cursor.rest gs) :
    lx.stream = Segment.stream lx.position lx.ordinals lx.scanner.cursor.rest gs := by
  obtain ⟨⟨⟨s, p⟩, n⟩, shows, truncated, text, diagnosis⟩ := lx
  subst ht
  -- By induction on the segments; each of them is one scan.
  simp only at h
  induction h generalizing p n with
  | blank hs =>
    rw [stream_eq]
    simp [scan, Scanner.next_blank hs, Scanned.ofPull, Segment.stream, Segment.layout,
      Scanned.ending, position, ordinals, Scanner.position]
  | @lexeme blanks more tail b gs hs hb hr ht ih =>
    have hk := Lexeme.kind_ne_endOfInput b (more ++ tail)
    have hcons := Segment.stream_cons ⟨blanks, Lexeme.read b (more ++ tail)⟩ gs p n tail
    rw [hr] at hcons
    rw [stream_eq]
    simp only [scan, Scanner.next_lexeme hs hb hr, hk, Bool.false_eq_true, if_false, ih, hr]
    exact hcons.symm

/-- The scan stream of a whole input. -/
theorem scanned_eq_layout {input : Bytes} {gs : List Segment} (h : Cuts input gs) :
    scanned input = Segment.stream 1 0 input gs :=
  Lexer.stream_eq_layout rfl h

end SqlTokens
