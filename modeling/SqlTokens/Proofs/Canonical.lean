import Mathlib.Order.Nat
import SqlTokens.Proofs.Visibility

/-! # The canonical run

    A fresh lexer that does nothing but scan goes through its input in one way only.
    The token that it hands out at its `i`-th scan, counted from zero, is
    `tokenAt input i`: first the scan stream, and behind its end the end again and
    again (`scanned_eq_tokensFrom`).

    Any other lexer of the input stands somewhere on this run (`Lexer.StandsAt`), and
    what it can still hand out is what comes from there on.

    * **The end**: `Lexer.IsDone` — a lexer that handed out the end hands out nothing
      else, and does not move.
    * **Hidden comments**: `Lexer.exists_next_eq_scans` — to ask for a shown token is to
      scan some comments and then the token.
    * **One scan**: `Lexer.StandsAt.scan` — it hands out the token where the lexer
      stands, and moves it on by one.
    * **The rest**: `Lexer.StandsAt.stream_eq_append` — what is left of the stream. -/

namespace SqlTokens

/-! ## The end -/

namespace Scanner

theorem next_of_rest_eq_nil {s : Scanner} (h : s.cursor.rest = []) :
    s.next = (⟨.endOfInput, none, s.position⟩, s) := by
  obtain ⟨⟨rest, p⟩, n⟩ := s
  subst h
  rfl

/-- The end is handed out where nothing is left. -/
theorem next_of_end {s : Scanner} (h : s.next.1.kind = .endOfInput) :
    s.next.1 = ⟨.endOfInput, none, s.next.2.position⟩ ∧ s.next.2.cursor.rest = [] := by
  obtain ⟨⟨rest, p⟩, n⟩ := s
  rcases blank_or_lexeme rest with hs | ⟨blanks, b, more, tail, rfl, hs, hb, hr⟩
  · rw [next_blank hs]
    exact ⟨rfl, rfl⟩
  · rw [next_lexeme hs hb hr] at h
    exact absurd h (Lexeme.kind_ne_endOfInput b (more ++ tail))

end Scanner

namespace Lexer

theorem scan_of_not_isTruncated {lx : Lexer} (h : lx.isTruncated = false) :
    lx.scan = (lx.scanner.next.1, { lx with scanner := lx.scanner.next.2 }) := by
  rw [scan, h, if_neg Bool.false_ne_true]

@[simp] theorem isTruncated_scan (lx : Lexer) : lx.scan.2.isTruncated = lx.isTruncated := by
  unfold scan
  split
  · rfl
  · rfl

/-- Only the end is left to be handed out. -/
def IsDone (lx : Lexer) : Prop :=
  lx.isTruncated = true ∨ lx.scanner.cursor.rest = []

/-- The end of the input, as a lexer hands it out where it stands. -/
def endToken (lx : Lexer) : Token :=
  ⟨.endOfInput, none, lx.position⟩

/-- A lexer that is done hands out the end and stays as it is. -/
theorem IsDone.scan {lx : Lexer} (h : lx.IsDone) : lx.scan = (lx.endToken, lx) := by
  by_cases ht : lx.isTruncated = true
  · rw [Lexer.scan, if_pos ht]
    rfl
  · have ht' : lx.isTruncated = false := Bool.eq_false_iff.2 ht
    rw [scan_of_not_isTruncated ht', Scanner.next_of_rest_eq_nil (h.resolve_left ht)]
    rfl

/-- A lexer that handed out the end is done, and the end is where it stands. -/
theorem isDone_of_scan {lx : Lexer} (h : lx.scan.1.kind = .endOfInput) :
    lx.scan.1 = lx.scan.2.endToken ∧ lx.scan.2.IsDone := by
  by_cases ht : lx.isTruncated = true
  · have hdone : lx.IsDone := .inl ht
    rw [hdone.scan]
    exact ⟨rfl, hdone⟩
  · have ht' : lx.isTruncated = false := Bool.eq_false_iff.2 ht
    rw [scan_of_not_isTruncated ht'] at h ⊢
    obtain ⟨htoken, hrest⟩ := Scanner.next_of_end h
    exact ⟨htoken, .inr hrest⟩

/-! ## The run -/

/-- The lexer after `n` scans. -/
def scans (lx : Lexer) : Nat → Lexer
  | 0 => lx
  | n + 1 => (lx.scans n).scan.2

/-- The first of several scans. -/
theorem scans_succ_left (lx : Lexer) (n : Nat) : lx.scans (n + 1) = lx.scan.2.scans n := by
  induction n with
  | zero => rfl
  | succ n ih => exact congrArg (fun lx' => lx'.scan.2) ih

/-- A lexer that is done stays as it is, however often it scans. -/
theorem IsDone.scans {lx : Lexer} (h : lx.IsDone) (n : Nat) : lx.scans n = lx := by
  induction n with
  | zero => rfl
  | succ n ih => rw [Lexer.scans, ih, h.scan]

theorem scans_add (lx : Lexer) (m n : Nat) : lx.scans (m + n) = (lx.scans m).scans n := by
  induction n with
  | zero => rfl
  | succ n ih => exact congrArg (fun lx' => lx'.scan.2) ih

/-- The comments that `next` passes over are some of the tokens that are left. -/
theorem exists_next_eq_scans (lx : Lexer) :
    ∃ k, k ≤ lx.remaining ∧
      (∀ j, j < k → (lx.scans j).scan.1.kind = .comment ∧ lx.showsComments = false) ∧
      ((lx.scans k).scan.1.kind = .comment → lx.showsComments = true) ∧
      lx.next = ((lx.scans k).scan.1,
        { lx.scans (k + 1) with lastText := (lx.scans k).scan.1.value }) := by
  -- By induction on the comments that are passed over.
  fun_induction next lx with
  | case1 lx token after hs hc ih =>
    have hlt := lx.remaining_scan_lt
    have hshown := lx.showsComments_scan
    rw [hs] at hlt hshown
    have hhidden : lx.showsComments = false := by simpa using hc.2
    obtain ⟨k, hk, hcomments, hlast, hnext⟩ := ih
    have hscans : ∀ n, lx.scans (n + 1) = after.scans n := by
      intro n
      rw [scans_succ_left, hs]
    have hfewer : after.remaining < lx.remaining := hlt (by simp [hc.1])
    refine ⟨k + 1, by omega, ?_, ?_, ?_⟩
    · intro j hj
      cases j with
      | zero =>
        refine ⟨?_, hhidden⟩
        rw [scans, hs]
        exact hc.1
      | succ j =>
        rw [hscans]
        exact ⟨(hcomments j (by omega)).1, hhidden⟩
    · rw [hscans, ← hshown]
      exact hlast
    · rw [hscans, hscans]
      exact hnext
  | case2 lx token after hs hc =>
    refine ⟨0, Nat.zero_le _, ?_, ?_, ?_⟩
    · intro j hj
      exact absurd hj (Nat.not_lt_zero j)
    · intro hkind
      rw [scans, hs] at hkind
      by_contra hno
      exact hc ⟨hkind, by simpa using hno⟩
    · show _ = (lx.scan.1, { lx.scan.2 with lastText := lx.scan.1.value })
      rw [hs]

theorem isTruncated_scans (input : Bytes) (n : Nat) :
    ((start input).scans n).isTruncated = false := by
  induction n with
  | zero => rfl
  | succ n ih => exact (isTruncated_scan _).trans ih

end Lexer

/-- The token that a fresh lexer of `input` hands out at its `i`-th scan, counted
    from zero. -/
def tokenAt (input : Bytes) (i : Nat) : Scanned :=
  .ofPull ((Lexer.start input).scans i).scan

/-- The `n` tokens of the canonical run from the `i`-th on. -/
def tokensFrom (input : Bytes) (i n : Nat) : List Scanned :=
  (List.range' i n).map (tokenAt input)

section
variable (input : Bytes)

theorem tokensFrom_succ (i n : Nat) :
    tokensFrom input i (n + 1) = tokenAt input i :: tokensFrom input (i + 1) n := rfl

theorem tokensFrom_append (i m n : Nat) :
    tokensFrom input i m ++ tokensFrom input (i + m) n = tokensFrom input i (m + n) := by
  rw [tokensFrom, tokensFrom, tokensFrom, ← List.map_append, List.range'_append_1]

theorem tokensFrom_concat (i n : Nat) :
    tokensFrom input i n ++ [tokenAt input (i + n)] = tokensFrom input i (n + 1) :=
  tokensFrom_append input i n 1

/-- The tokens from one place through another. -/
theorem tokensFrom_through {i k : Nat} (h : i ≤ k) :
    tokensFrom input i (k - i) ++ [tokenAt input k] = tokensFrom input i (k + 1 - i) := by
  have hconcat := tokensFrom_concat input i (k - i)
  rwa [Nat.add_sub_cancel' h, ← Nat.sub_add_comm h] at hconcat

end

theorem mem_tokensFrom {input : Bytes} {i n : Nat} {x : Scanned} :
    x ∈ tokensFrom input i n ↔ ∃ j, i ≤ j ∧ j < i + n ∧ tokenAt input j = x := by
  simp [tokensFrom, List.mem_range'_1, and_assoc]

/-- Behind the end the end comes again. -/
theorem tokenAt_of_end {input : Bytes} {i j : Nat} (h : (tokenAt input i).token.isEnd = true)
    (hij : i ≤ j) : tokenAt input j = tokenAt input i := by
  have hend : ((Lexer.start input).scans i).scan.1.kind = .endOfInput := Token.isEnd_iff.1 h
  obtain ⟨htoken, hdone⟩ := Lexer.isDone_of_scan hend
  rcases Nat.eq_or_lt_of_le hij with rfl | hlt
  · rfl
  · -- A lexer that is done stays as it is.
    obtain ⟨n, rfl⟩ := Nat.exists_eq_add_of_lt hlt
    have hstays : (Lexer.start input).scans (i + n + 1) = ((Lexer.start input).scans i).scan.2 := by
      rw [Nat.add_right_comm, Lexer.scans_add]
      exact hdone.scans n
    rw [tokenAt, tokenAt, hstays, hdone.scan, ← htoken]

/-! ## Lexers on the run -/

namespace Lexer

/-- The lexer has passed what the canonical run has passed with its first `i` tokens. -/
def StandsAt (input : Bytes) (i : Nat) (lx : Lexer) : Prop :=
  lx.scanner = ((start input).scans i).scanner

theorem standsAt_start (input : Bytes) (shown : Bool) :
    ((start input).showComments shown).StandsAt input 0 := rfl

namespace StandsAt

variable {input : Bytes} {i : Nat} {lx : Lexer}

theorem position_eq (h : lx.StandsAt input i) : lx.position = ((start input).scans i).position :=
  congrArg Scanner.position h

theorem ordinals_eq (h : lx.StandsAt input i) : lx.ordinals = ((start input).scans i).ordinals :=
  congrArg Scanner.ordinals h

/-- **One scan**: the token where the lexer stands, and the lexer one token further. -/
theorem scan (h : lx.StandsAt input i) (ht : lx.isTruncated = false) :
    Scanned.ofPull lx.scan = tokenAt input i ∧ lx.scan.2.StandsAt input (i + 1) := by
  have hcanonical := scan_of_not_isTruncated (isTruncated_scans input i)
  have hscan := scan_of_not_isTruncated ht
  rw [show lx.scanner = _ from h] at hscan
  constructor
  · rw [tokenAt, hcanonical, hscan]
    rfl
  · show _ = ((start input).scans i).scan.2.scanner
    rw [hcanonical, hscan]

/-- What is left of the stream, from where the lexer stands on. -/
theorem stream_eq (h : lx.StandsAt input i) (ht : lx.isTruncated = false) :
    lx.stream = tokenAt input i ::
      if (tokenAt input i).token.isEnd then [] else lx.scan.2.stream := by
  obtain ⟨htoken, -⟩ := h.scan ht
  rw [Lexer.stream_eq, ← htoken]
  simp only [Token.isEnd_iff]
  rfl

/-- **The rest**: tokens that are not the end are the first ones of what is left. -/
theorem stream_eq_append (h : lx.StandsAt input i) (ht : lx.isTruncated = false) {n : Nat}
    (hn : ∀ j, i ≤ j → j < i + n → (tokenAt input j).token.isEnd = false) :
    lx.stream = tokensFrom input i n ++ (lx.scans n).stream := by
  -- By induction on the tokens, each of which is one scan.
  induction n generalizing i lx with
  | zero => rfl
  | succ n ih =>
    obtain ⟨htoken, hnext⟩ := h.scan ht
    have hno : (tokenAt input i).token.isEnd = false := hn i (Nat.le_refl i) (by omega)
    have hrest := ih hnext ((isTruncated_scan lx).trans ht)
      fun j hj hj' => hn j (by omega) (by omega)
    rw [h.stream_eq ht, hno, if_neg Bool.false_ne_true, hrest, scans_succ_left, tokensFrom_succ]
    rfl

end StandsAt

end Lexer

/-- The end comes. -/
theorem exists_isEnd_tokenAt (input : Bytes) (i : Nat) :
    ∃ j, i ≤ j ∧ (tokenAt input j).token.isEnd = true := by
  -- By induction on what is left; each token before the end takes some of it.
  induction hn : ((Lexer.start input).scans i).remaining using Nat.strongRecOn generalizing i with
  | ind n ih =>
    subst hn
    by_cases hend : (tokenAt input i).token.isEnd = true
    · exact ⟨i, Nat.le_refl i, hend⟩
    · have hno : ((Lexer.start input).scans i).scan.1.kind ≠ .endOfInput :=
        fun hkind => hend (Token.isEnd_iff.2 hkind)
      obtain ⟨j, hj, hend'⟩ := ih _ (Lexer.remaining_scan_lt _ hno) (i + 1) rfl
      exact ⟨j, by omega, hend'⟩

/-- From every place on there is a first token with a property that the end has. -/
theorem exists_isLeast_tokenAt (input : Bytes) (i : Nat) {p : Scanned → Bool}
    (hp : ∀ x, x.token.isEnd = true → p x = true) :
    ∃ k, IsLeast {k | i ≤ k ∧ p (tokenAt input k) = true} k := by
  obtain ⟨j, hj, hend⟩ := exists_isEnd_tokenAt input i
  have hexists : ∃ k, i ≤ k ∧ p (tokenAt input k) = true := ⟨j, hj, hp _ hend⟩
  exact ⟨Nat.find hexists, Nat.isLeast_find hexists⟩

/-- **The scan stream** is the canonical run through its end, which comes behind the
    last byte, and from there on only the end comes. -/
theorem scanned_eq_tokensFrom (input : Bytes) :
    ∃ n q, scanned input = tokensFrom input 0 (n + 1) ∧
      ∀ i, n ≤ i → tokenAt input i = .ending (input.length + 1) q := by
  obtain ⟨n, ⟨-, hend⟩, hleast⟩ :=
    exists_isLeast_tokenAt input 0 (p := fun x => x.token.isEnd) fun _ hx => hx
  have hbefore : ∀ j, 0 ≤ j → j < 0 + n → (tokenAt input j).token.isEnd = false := by
    intro j hj hjn
    by_contra hyes
    have hle : n ≤ j := hleast ⟨hj, by simpa using hyes⟩
    omega
  have hstart : (Lexer.start input).StandsAt input 0 := rfl
  have hlast : ((Lexer.start input).scans n).stream = [tokenAt input n] := by
    have hstands : ((Lexer.start input).scans n).StandsAt input n := rfl
    rw [hstands.stream_eq (Lexer.isTruncated_scans input n), if_pos hend]
  have hstream : scanned input = tokensFrom input 0 (n + 1) := by
    rw [scanned, hstart.stream_eq_append rfl hbefore, hlast, ← tokensFrom_concat, Nat.zero_add]
  -- As a layout, the stream tells where its end is.
  obtain ⟨gs, hgs⟩ := exists_cuts input
  have hends := congrArg List.getLast? (hstream.symm.trans (scanned_eq_layout hgs))
  rw [← tokensFrom_concat, List.getLast?_concat, Segment.stream, List.getLast?_concat,
    Option.some.injEq, Nat.zero_add, Nat.zero_add, Nat.add_comm 1] at hends
  refine ⟨n, Segment.ordinals gs, hstream, ?_⟩
  intro i hi
  exact (tokenAt_of_end hend hi).trans hends

theorem tokenAt_mem_scanned (input : Bytes) (i : Nat) : tokenAt input i ∈ scanned input := by
  obtain ⟨n, q, hstream, hends⟩ := scanned_eq_tokensFrom input
  rw [hstream, mem_tokensFrom]
  by_cases hi : i ≤ n
  · exact ⟨i, Nat.zero_le i, by omega, rfl⟩
  · exact ⟨n, Nat.zero_le n, by omega, (hends n (Nat.le_refl n)).trans (hends i (by omega)).symm⟩

end SqlTokens
