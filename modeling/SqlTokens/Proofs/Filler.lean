import SqlTokens.Proofs.Displacement
import SqlTokens.Proofs.Lookahead
import SqlTokens.Proofs.View

/-! # What stands between tokens

    Blanks and complete comments may be put between two tokens of an input, a blank
    first.  The lexer passes over them whole, whatever the comments hold, and goes on
    in step.  So who does not see comments is handed out the same tokens as before, and
    those behind the place are moved.

    * **Fillers**: `IsFiller` — rows of blanks and complete comments.
    * **Cutting**: `IsFiller.exists_cuts` — a filler is cut into its comments, and its
      last blanks are those of the segment that comes next.
    * **Places**: `exists_cuts_behind` — where a lexer stands after some scans, the
      input is cut.
    * **Separators**: `tokens_insert_separator` — what is put there shows nothing, and
      only moves what comes after it. -/

namespace SqlTokens

/-! ## Complete comments -/

namespace Comment

theorem line_append {body : Bytes} (h : Byte.newline ∉ body) (s : Bytes) :
    line (body ++ Byte.newline :: s) = body ++ [Byte.newline] := by
  induction body with
  | nil =>
    rw [List.nil_append, line_cons, if_pos rfl]
    rfl
  | cons b body ih =>
    obtain ⟨hb, hbody⟩ := not_or.1 (List.mem_cons.not.1 h)
    rw [List.cons_append, line_cons, if_neg (Ne.symm hb), ih hbody]
    rfl

/-- What has no `*/` in it, and then one: that one ends the comment. -/
theorem block_append {body : Bytes} (h : ¬[Byte.star, Byte.slash] <:+: body) (s : Bytes) :
    block (body ++ Byte.star :: Byte.slash :: s) = (body ++ [Byte.star, Byte.slash], true) := by
  induction body with
  | nil =>
    rw [List.nil_append, block_cons_cons, if_pos ⟨rfl, rfl⟩]
    rfl
  | cons b body ih =>
    have hbody := ih fun hin => h (List.infix_cons hin)
    cases body with
    | nil =>
      -- A star before the `*/` does not end it too early.
      have hopen : ¬(b = Byte.star ∧ Byte.star = Byte.slash) := by
        rintro ⟨-, hc⟩
        exact absurd hc (by decide)
      rw [List.nil_append] at hbody
      rw [List.cons_append, List.nil_append, block_cons_cons, if_neg hopen, hbody]
      rfl
    | cons c body =>
      have hopen : ¬(b = Byte.star ∧ c = Byte.slash) := by
        rintro ⟨rfl, rfl⟩
        exact h ⟨[], body, rfl⟩
      rw [List.cons_append] at hbody
      rw [List.cons_append, List.cons_append, block_cons_cons, if_neg hopen, hbody]
      rfl

/-- A comment with its end. -/
inductive IsComplete : Bytes → Prop
  /-- The first `*/` behind the opening is the end. -/
  | block {body : Bytes} (h : ¬[Byte.star, Byte.slash] <:+: body) :
      IsComplete (Byte.slash :: Byte.star :: (body ++ [Byte.star, Byte.slash]))
  /-- Two dashes, or two slashes, and the rest of the line with its newline. -/
  | line {b : UInt8} {body : Bytes} (hb : b = Byte.dash ∨ b = Byte.slash)
      (h : Byte.newline ∉ body) : IsComplete (b :: b :: (body ++ [Byte.newline]))

/-- A complete comment is read as it is, whatever follows it. -/
theorem IsComplete.read {c : Bytes} (h : IsComplete c) (s : Bytes) :
    ∃ b more, c = b :: more ∧ Byte.isBlank b = false ∧
      Lexeme.read b (more ++ s) = .verbatim .comment c := by
  cases h with
  | @block body hbody =>
    have hend : Comment.block (body ++ [Byte.star, Byte.slash] ++ s) =
        (body ++ [Byte.star, Byte.slash], true) := by
      rw [List.append_assoc]
      exact block_append hbody s
    refine ⟨Byte.slash, _, rfl, rfl, ?_⟩
    show Lexeme.blockComment (body ++ [Byte.star, Byte.slash] ++ s) = _
    rw [Lexeme.blockComment, hend]
    rfl
  | @line b body hb hbody =>
    have hend : Comment.line (body ++ [Byte.newline] ++ s) = body ++ [Byte.newline] := by
      rw [List.append_assoc]
      exact line_append hbody s
    rcases hb with rfl | rfl
    · refine ⟨Byte.dash, _, rfl, rfl, ?_⟩
      show Lexeme.lineComment [Byte.dash, Byte.dash] (body ++ [Byte.newline] ++ s) = _
      rw [Lexeme.lineComment, hend]
      rfl
    · refine ⟨Byte.slash, _, rfl, rfl, ?_⟩
      show Lexeme.lineComment [Byte.slash, Byte.slash] (body ++ [Byte.newline] ++ s) = _
      rw [Lexeme.lineComment, hend]
      rfl

end Comment

/-- A complete comment is a segment, with the blanks before it. -/
theorem Cuts.comment {c u s : Bytes} {gs : List Segment} (hu : IsBlank u)
    (hc : Comment.IsComplete c) (h : Cuts s gs) :
    Cuts (u ++ (c ++ s)) (⟨u, .verbatim .comment c⟩ :: gs) := by
  obtain ⟨b, more, rfl, hb, hread⟩ := hc.read s
  rw [← hread]
  exact .lexeme hu hb (congrArg Lexeme.source hread) h

/-! ## Fillers -/

/-- Blanks and complete comments, in any order. -/
inductive IsFiller : Bytes → Prop
  | nil : IsFiller []
  | blank {b : UInt8} {s : Bytes} (hb : Byte.isBlank b = true) (hs : IsFiller s) :
      IsFiller (b :: s)
  | comment {c s : Bytes} (hc : Comment.IsComplete c) (hs : IsFiller s) : IsFiller (c ++ s)

/-- A blank, and then any filler. -/
inductive IsSeparator : Bytes → Prop
  | blank {b : UInt8} {s : Bytes} (hb : Byte.isBlank b = true) (hs : IsFiller s) :
      IsSeparator (b :: s)

namespace Segment

/-- The segments, with `u` before the first of them. -/
def prependBlanks (u : Bytes) : List Segment → List Segment
  | [] => []
  | g :: gs => { g with blanks := u ++ g.blanks } :: gs

/-- More blanks only move what comes after them. -/
theorem stream_prependBlanks (u s : Bytes) (gs : List Segment) (p n : Nat) :
    stream p n (u ++ s) (prependBlanks u gs) = stream (p + u.length) n s gs := by
  cases gs with
  | nil => simp only [stream, prependBlanks, layout, List.length_append, Nat.add_assoc]
  | cons g gs =>
    simp only [stream, prependBlanks, layout, List.length_append, Nat.add_assoc]
    rfl

/-- The segment of a comment. -/
def IsComment (g : Segment) : Prop :=
  ∃ c, g.lexeme = .verbatim .comment c

/-- No comment is a `?`. -/
theorem ordinals_of_isComment {gs : List Segment} (h : ∀ g ∈ gs, g.IsComment) :
    ordinals gs = 0 := by
  apply List.countP_eq_zero.2
  intro g hg
  obtain ⟨c, hc⟩ := h g hg
  simp [hc, Lexeme.verbatim]

theorem kind_of_mem_layout {gs : List Segment} (h : ∀ g ∈ gs, g.IsComment) {p n : Nat}
    {x : Scanned} (hx : x ∈ layout p n gs) : x.token.kind = .comment := by
  induction gs generalizing p n with
  | nil => cases hx
  | cons g gs ih =>
    obtain ⟨hg, hgs⟩ := List.forall_mem_cons.1 h
    rcases List.mem_cons.1 hx with rfl | hx
    · obtain ⟨c, hc⟩ := hg
      exact congrArg Lexeme.kind hc
    · exact ih hgs hx

end Segment

theorem Cuts.prependBlanks {u s : Bytes} {gs : List Segment} (hu : IsBlank u) (h : Cuts s gs) :
    Cuts (u ++ s) (Segment.prependBlanks u gs) := by
  cases h with
  | blank hs => exact .blank (List.forall_mem_append.2 ⟨hu, hs⟩)
  | lexeme hs hb hr ht =>
    rw [← List.append_assoc]
    exact .lexeme (List.forall_mem_append.2 ⟨hu, hs⟩) hb hr ht

/-- **Cutting**: a filler is cut into its comments, and the blanks behind the last of
    them belong to what comes next. -/
theorem IsFiller.exists_cuts {v : Bytes} (h : IsFiller v) {u : Bytes} (hu : IsBlank u) :
    ∃ fs blanks, u ++ v = Segment.join fs ++ blanks ∧ (∀ f ∈ fs, f.IsComment) ∧
      ∀ {s : Bytes} {gs : List Segment}, Cuts s gs →
        Cuts (u ++ (v ++ s)) (fs ++ Segment.prependBlanks blanks gs) := by
  -- By induction on the filler; `u` is the blanks since the last comment.
  induction h generalizing u with
  | nil => exact ⟨[], u, List.append_nil u, by simp, fun hs => hs.prependBlanks hu⟩
  | @blank b v hb hv ih =>
    have hmore : IsBlank (u ++ [b]) :=
      List.forall_mem_append.2 ⟨hu, List.forall_mem_singleton.2 hb⟩
    obtain ⟨fs, blanks, hjoin, hfs, hcuts⟩ := ih hmore
    refine ⟨fs, blanks, ?_, hfs, fun hs => ?_⟩
    · rw [← hjoin, List.append_assoc, List.singleton_append]
    · have hcut := hcuts hs
      rwa [List.append_assoc, List.singleton_append] at hcut
  | @comment c v hc hv ih =>
    obtain ⟨fs, blanks, hjoin, hfs, hcuts⟩ := ih (u := []) (List.forall_mem_nil _)
    rw [List.nil_append] at hjoin
    refine ⟨⟨u, .verbatim .comment c⟩ :: fs, blanks, ?_, ?_, fun hs => ?_⟩
    · rw [hjoin, Segment.join_cons, List.append_assoc, List.append_assoc]
      rfl
    · exact List.forall_mem_cons.2 ⟨⟨c, rfl⟩, hfs⟩
    · rw [List.append_assoc c]
      exact .comment hu hc (hcuts hs)

namespace IsSeparator

variable {w : Bytes}

theorem exists_cuts (h : IsSeparator w) :
    ∃ fs blanks, w = Segment.join fs ++ blanks ∧ (∀ f ∈ fs, f.IsComment) ∧
      ∀ {s : Bytes} {gs : List Segment}, Cuts s gs →
        Cuts (w ++ s) (fs ++ Segment.prependBlanks blanks gs) := by
  cases h with
  | blank hb hs => exact (IsFiller.blank hb hs).exists_cuts (List.forall_mem_nil _)

/-- No lexeme goes on with a separator. -/
theorem replaces (h : IsSeparator w) {t : Bytes} (ht : t ≠ []) (source : Bytes) :
    Replaces source (w ++ t) t := by
  cases h with
  | blank hb hs => exact .of_isBlank hb ht source _

end IsSeparator

/-! ## Places between tokens -/

/-- What a lexer passes in some scans, before the end, are segments of its input, however
    the rest of it is cut. -/
theorem Lexer.exists_cuts_scans {lx : Lexer} (ht : lx.isTruncated = false) {n : Nat}
    (hrest : (lx.scans n).scanner.cursor.rest ≠ []) :
    ∃ gs, lx.scanner.cursor.rest = Segment.join gs ++ (lx.scans n).scanner.cursor.rest ∧
      ∀ gs', Cuts (lx.scans n).scanner.cursor.rest gs' →
        Cuts lx.scanner.cursor.rest (gs ++ gs') := by
  -- By induction on the scans: the first of them passes the first segment.
  induction n generalizing lx with
  | zero => exact ⟨[], rfl, fun _ h => h⟩
  | succ n ih =>
    have hscan := scan_of_not_isTruncated ht
    have htruncated : lx.scan.2.isTruncated = false := by rw [isTruncated_scan, ht]
    rw [scans_succ_left] at hrest ⊢
    rcases blank_or_lexeme lx.scanner.cursor.rest with hs | ⟨blanks, b, more, tail, heq, hs, hb, hr⟩
    · -- There is nothing but blanks, so that nothing is left behind the first scan.
      have hend : lx.scan.2.scanner.cursor.rest = [] := by
        rw [hscan]
        exact congrArg (fun x : Token × Scanner => x.2.cursor.rest) (Scanner.next_blank hs _ _)
      have hdone : lx.scan.2.IsDone := .inr hend
      rw [hdone.scans, hend] at hrest
      exact absurd rfl hrest
    · have htail : lx.scan.2.scanner.cursor.rest = tail := by
        have hnext := Scanner.next_lexeme hs hb hr lx.position lx.ordinals
        rw [← heq] at hnext
        rw [hscan]
        exact congrArg (fun x : Token × Scanner => x.2.cursor.rest) hnext
      obtain ⟨gs, hjoin, hcuts⟩ := ih htruncated hrest
      rw [htail] at hjoin hcuts
      refine ⟨⟨blanks, Lexeme.read b (more ++ tail)⟩ :: gs, ?_, fun gs' h => ?_⟩
      · rw [heq, Segment.join_cons, hr, List.append_assoc, List.append_assoc, ← hjoin,
          List.cons_append]
      · rw [heq]
        exact .lexeme hs hb hr (hcuts gs' h)

/-- **Places**: where a lexer stands after some scans, before the end, its input is cut. -/
theorem exists_cuts_behind {a b : Bytes} (hb : b ≠ []) {n : Nat}
    (h : ((Lexer.start (a ++ b)).scans n).position = a.length + 1) :
    ∃ gs gs', a = Segment.join gs ∧ Cuts b gs' ∧ Cuts (a ++ b) (gs ++ gs') := by
  have hrest := (Lexer.isSound_scans (a ++ b) n).rest
  rw [h, Nat.add_sub_cancel, List.drop_left] at hrest
  have hstart : (Lexer.start (a ++ b)).isTruncated = false := rfl
  obtain ⟨gs, hjoin, hcuts⟩ := Lexer.exists_cuts_scans hstart (hrest ▸ hb)
  obtain ⟨gs', hcut⟩ := exists_cuts b
  rw [hrest] at hjoin hcuts
  exact ⟨gs, gs', List.append_cancel_right hjoin, hcut, hcuts gs' hcut⟩

/-! ## Moved tokens -/

namespace Token

/-- The token when `k` bytes are put behind the first `n` bytes of the input. -/
def makeRoom (n k : Nat) (t : Token) : Token :=
  if t.position ≤ n then t else { t with position := t.position + k }

theorem kind_makeRoom (n k : Nat) (t : Token) : (t.makeRoom n k).kind = t.kind := by
  unfold makeRoom
  split
  · rfl
  · rfl

end Token

/-- A token that is moved without its number is the same in another place. -/
theorem Scanned.Moved.token_eq {input : Bytes} {k : Nat} {x y : Scanned}
    (h : x.Moved input k 0 y) :
    y.token = ⟨x.token.kind, x.token.value, x.token.position + k⟩ := by
  obtain ⟨hkind, hposition, -, hordinals, hvalue⟩ := h
  have hnumber : y.ordinals = x.ordinals := by omega
  have hplace : y.token.position = x.token.position + k := by omega
  have htext : y.token.value = x.token.value := by
    split at hvalue
    · rw [hvalue.1, hvalue.2, hnumber]
    · exact hvalue
  rw [← hkind, ← htext, ← hplace]

namespace Segment

/-- Where the tokens of a layout lie, and that each of them takes its source. -/
theorem place_of_mem_layout {gs : List Segment} {p n : Nat} {x : Scanned}
    (hx : x ∈ layout p n gs) :
    p ≤ x.token.position ∧ ∃ g ∈ gs, x.stop = x.token.position + g.lexeme.source.length := by
  induction gs generalizing p n with
  | nil => cases hx
  | cons g gs ih =>
    rcases List.mem_cons.1 hx with rfl | hx
    · exact ⟨Nat.le_add_right _ _, g, List.mem_cons_self, rfl⟩
    · obtain ⟨hle, g', hg', hstop⟩ := ih hx
      exact ⟨by omega, g', List.mem_cons_of_mem _ hg', hstop⟩

/-- The tokens before the place keep theirs. -/
theorem map_makeRoom_layout {gs : List Segment} (hgs : ∀ g ∈ gs, g.IsSound) (k : Nat) :
    ((layout 1 0 gs).map Scanned.token).map (Token.makeRoom (join gs).length k) =
      (layout 1 0 gs).map Scanned.token := by
  rw [List.map_map]
  apply List.map_congr_left
  intro x hx
  have hle := stop_le_of_mem_layout hx
  obtain ⟨-, g, hg, hstop⟩ := place_of_mem_layout hx
  obtain ⟨b, more, hsource, -⟩ := (hgs g hg).starts
  rw [hsource, List.length_cons] at hstop
  exact if_pos (by omega)

/-- The tokens behind the place, the end among them, are moved. -/
theorem map_makeRoom_stream {gs : List Segment} {s : Bytes} (h : Cuts s gs) (before : Bytes)
    (k n : Nat) :
    ((stream (before.length + 1) n s gs).map Scanned.token).map
        (Token.makeRoom before.length k) =
      (stream (before.length + 1 + k) n s gs).map Scanned.token := by
  have hlater : ∀ x ∈ stream (before.length + 1) n s gs, before.length < x.token.position := by
    intro x hx
    rcases List.mem_append.1 hx with hx | hx
    · exact (place_of_mem_layout hx).1
    · rw [List.mem_singleton.1 hx]
      exact Nat.le_add_right _ _
  have hmoved := stream_moved h before (k := k) (m := 0) (n := n)
    (Int.natCast_add _ _) (Int.add_zero _).symm
  have htokens : (stream (before.length + 1 + k) n s gs).map Scanned.token =
      (stream (before.length + 1) n s gs).map fun x =>
        ⟨x.token.kind, x.token.value, x.token.position + k⟩ := by
    apply List.forall₂_eq_eq_eq.le
    rw [List.forall₂_map_left_iff, List.forall₂_map_right_iff]
    exact (hmoved.imp fun x y hxy => hxy.token_eq).flip
  rw [htokens, List.map_map]
  apply List.map_congr_left
  intro x hx
  exact if_neg (Nat.not_le_of_gt (hlater x hx))

end Segment

/-! ## The tokens that are shown -/

/-- All tokens but the comments. -/
def shownTokens (xs : List Scanned) : List Token :=
  (xs.map Scanned.token).filter fun t => t.kind != .comment

theorem shownTokens_append (xs ys : List Scanned) :
    shownTokens (xs ++ ys) = shownTokens xs ++ shownTokens ys := by
  rw [shownTokens, List.map_append, List.filter_append]
  rfl

/-- Who does not see comments is handed out all other tokens. -/
theorem tokens_wholeCourse (input : Bytes) :
    ((Lexer.start input).wholeCourse .shown).tokens = shownTokens (scanned input) := by
  rw [Lexer.Course.tokens_eq, Lexer.wholeCourse_pulls, shownTokens, List.filter_map]
  rfl

/-- A filler shows nothing, and moves what comes after it. -/
theorem shownTokens_filler {fs : List Segment} (hfs : ∀ f ∈ fs, f.IsComment) {w blanks : Bytes}
    (hjoin : w = Segment.join fs ++ blanks) (s : Bytes) (gs : List Segment) (p n : Nat) :
    shownTokens (Segment.stream p n (w ++ s) (fs ++ Segment.prependBlanks blanks gs)) =
      shownTokens (Segment.stream (p + w.length) n s gs) := by
  have hnone : shownTokens (Segment.layout p n fs) = [] := by
    apply List.filter_eq_nil_iff.2
    intro t ht
    obtain ⟨x, hx, rfl⟩ := List.mem_map.1 ht
    simp [Segment.kind_of_mem_layout hfs hx]
  rw [hjoin, List.append_assoc, Segment.stream_append, Segment.stream_prependBlanks,
    Segment.ordinals_of_isComment hfs, shownTokens_append, hnone, List.nil_append,
    List.length_append, Nat.add_assoc, Nat.add_zero]

theorem map_makeRoom_shownTokens (n k : Nat) (xs : List Scanned) :
    (shownTokens xs).map (Token.makeRoom n k) =
      ((xs.map Scanned.token).map (Token.makeRoom n k)).filter fun t => t.kind != .comment := by
  rw [List.filter_map]
  simp only [Function.comp_def, Token.kind_makeRoom]
  rfl

/-- **Separators**: let a lexer of `a ++ b` stand right behind `a` after some scans, and
    let `b` have at least one byte.  When a separator is put there, who does not see
    comments is handed out the same tokens to the end, malformed ones among them, with
    the same texts and the same names for the `?`: those of `a` where they were, and the
    others moved by the length of the separator. -/
theorem tokens_insert_separator (a b : Bytes) (hb : b ≠ []) (n : Nat)
    (h : ((Lexer.start (a ++ b)).scans n).position = a.length + 1) {w : Bytes}
    (hw : IsSeparator w) :
    ((Lexer.start (a ++ (w ++ b))).wholeCourse .shown).tokens =
      ((Lexer.start (a ++ b)).wholeCourse .shown).tokens.map
        (Token.makeRoom a.length w.length) := by
  obtain ⟨gs, gs', rfl, hcut, hcuts⟩ := exists_cuts_behind hb h
  obtain ⟨fs, blanks, hjoin, hfs, hfill⟩ := hw.exists_cuts
  have hnew := hcuts.replace (hw.replaces hb _) (hfill hcut)
  have hfiller := shownTokens_filler hfs hjoin b gs' (1 + (Segment.join gs).length)
    (0 + Segment.ordinals gs)
  have hbefore := Segment.map_makeRoom_layout
    (fun g hg => hcuts.isSound g (List.mem_append_left _ hg)) w.length
  have hafter := Segment.map_makeRoom_stream hcut (Segment.join gs) w.length
    (0 + Segment.ordinals gs)
  rw [Nat.add_comm _ 1] at hafter
  calc ((Lexer.start (Segment.join gs ++ (w ++ b))).wholeCourse .shown).tokens
      = shownTokens (Segment.layout 1 0 gs) ++ shownTokens
          (Segment.stream (1 + (Segment.join gs).length + w.length)
            (0 + Segment.ordinals gs) b gs') := by
        rw [tokens_wholeCourse, scanned_eq_layout hnew, Segment.stream_append,
          shownTokens_append, hfiller]
    _ = (shownTokens (Segment.layout 1 0 gs) ++ shownTokens
          (Segment.stream (1 + (Segment.join gs).length) (0 + Segment.ordinals gs) b gs')).map
            (Token.makeRoom (Segment.join gs).length w.length) := by
        rw [List.map_append, map_makeRoom_shownTokens, map_makeRoom_shownTokens, hbefore, hafter]
        rfl
    _ = ((Lexer.start (Segment.join gs ++ b)).wholeCourse .shown).tokens.map
          (Token.makeRoom (Segment.join gs).length w.length) := by
        rw [tokens_wholeCourse, scanned_eq_layout hcuts, Segment.stream_append,
          shownTokens_append]

/-- Comments with a quote, a `?` and a star in them, behind a `<` and before a literal that
    is cut off. -/
theorem tokens_insert_separator_comments :
    let a := Utf8.ofString "?<"
    let b := Utf8.ofString "?!'it"
    let w := Utf8.ofString " /*'?**/\t--\"?*/\n"
    ((Lexer.start (a ++ b)).scans 2).position = a.length + 1 ∧ IsSeparator w ∧
    ((Lexer.start (a ++ (w ++ b))).wholeCourse .shown).tokens =
      ((Lexer.start (a ++ b)).wholeCourse .shown).tokens.map
        (Token.makeRoom a.length w.length) ∧
    ((Lexer.start (a ++ (w ++ b))).wholeCourse .shown).tokens.map Token.position =
      [1, 2, 19, 20, 21, 24] := by
  intro a b w
  have hplace : ((Lexer.start (a ++ b)).scans 2).position = a.length + 1 := by decide +kernel
  have hblock : Comment.IsComplete (Byte.slash :: Byte.star ::
      (Utf8.ofString "'?*" ++ [Byte.star, Byte.slash])) := .block (by decide +kernel)
  have hline : Comment.IsComplete (Byte.dash :: Byte.dash ::
      (Utf8.ofString "\"?*/" ++ [Byte.newline])) := .line (.inl rfl) (by decide +kernel)
  have hbytes : w = 0x20 :: (Byte.slash :: Byte.star ::
      (Utf8.ofString "'?*" ++ [Byte.star, Byte.slash]) ++ 0x09 :: (Byte.dash :: Byte.dash ::
        (Utf8.ofString "\"?*/" ++ [Byte.newline]) ++ [])) := by decide +kernel
  have hw : IsSeparator w := by
    rw [hbytes]
    exact .blank rfl (.comment hblock (.blank rfl (.comment hline .nil)))
  exact ⟨hplace, hw, tokens_insert_separator a b (by decide +kernel) 2 hplace hw,
    by decide +kernel⟩

end SqlTokens
