import SqlTokens.Proofs.Spelling

/-! # Segments of an input

    The rules of the lexer cut an input into segments, one after the other from
    its head on: the blanks before a lexeme, and the lexeme.  What is left after
    the last segment is blank.  Segments know nothing of positions or of the
    numbers of placeholders; what is cut where is best said about them.

    * **Existence**: `exists_cuts` — every input can be cut.
    * **Partition**: `Cuts.exists_join` — the segments, joined, are the input
      without the blanks at its end.
    * **Locality**: `Cuts.tail` — what is left after some of the segments is cut
      into the others.
    * **Soundness**: `Cuts.isSound` — what may be said of each segment by itself. -/

namespace SqlTokens

/-- A lexeme and the blanks before it. -/
structure Segment where
  blanks : Bytes
  lexeme : Lexeme
  deriving DecidableEq

namespace Segment

/-- The bytes of a segment. -/
def source (g : Segment) : Bytes :=
  g.blanks ++ g.lexeme.source

/-- The bytes of a row of segments. -/
def join (gs : List Segment) : Bytes :=
  gs.flatMap source

@[simp] theorem join_nil : join [] = [] := rfl

@[simp] theorem join_cons (g : Segment) (gs : List Segment) :
    join (g :: gs) = g.blanks ++ (g.lexeme.source ++ join gs) := by
  simp [join, source]

@[simp] theorem join_append (gs gs' : List Segment) : join (gs ++ gs') = join gs ++ join gs' :=
  List.flatMap_append

end Segment

/-- A row of blanks. -/
def IsBlank (s : Bytes) : Prop :=
  ∀ b ∈ s, Byte.isBlank b = true

/-- The rules of the lexer cut the input `s` into these segments. -/
inductive Cuts : Bytes → List Segment → Prop where
  /-- Blanks alone are no segment. -/
  | blank {s : Bytes} (hs : IsBlank s) : Cuts s []
  /-- Blanks and the lexeme that is read after them are a segment. -/
  | lexeme {blanks more tail : Bytes} {b : UInt8} {gs : List Segment} (hs : IsBlank blanks)
      (hb : Byte.isBlank b = false) (hr : (Lexeme.read b (more ++ tail)).source = b :: more)
      (ht : Cuts tail gs) :
      Cuts (blanks ++ b :: (more ++ tail)) (⟨blanks, Lexeme.read b (more ++ tail)⟩ :: gs)

/-- An input is blank, or its first byte that is no blank starts a lexeme. -/
theorem blank_or_lexeme (s : Bytes) :
    IsBlank s ∨ ∃ blanks b more tail, s = blanks ++ b :: (more ++ tail) ∧ IsBlank blanks ∧
      Byte.isBlank b = false ∧ (Lexeme.read b (more ++ tail)).source = b :: more := by
  have hs : s.takeWhile Byte.isBlank ++ s.dropWhile Byte.isBlank = s :=
    List.takeWhile_append_dropWhile
  have hblanks : IsBlank (s.takeWhile Byte.isBlank) := List.all_eq_true.1 List.all_takeWhile
  cases hd : s.dropWhile Byte.isBlank with
  | nil =>
    rw [hd, List.append_nil] at hs
    exact .inl (hs ▸ hblanks)
  | cons b rest =>
    have hb : Byte.isBlank b = false := by
      have := List.head?_dropWhile_not Byte.isBlank s
      simpa [hd] using this
    obtain ⟨more, tail, rfl, hr⟩ := Lexeme.exists_tail b rest
    exact .inr ⟨_, b, more, tail, by rw [← hd, hs], hblanks, hb, hr⟩

theorem exists_cuts (s : Bytes) : ∃ gs, Cuts s gs := by
  -- By induction on the length: a segment takes at least one byte.
  induction hn : s.length using Nat.strongRecOn generalizing s with
  | ind n ih =>
    subst hn
    rcases blank_or_lexeme s with hs | ⟨blanks, b, more, tail, rfl, hs, hb, hr⟩
    · exact ⟨[], .blank hs⟩
    · obtain ⟨gs, ht⟩ := ih tail.length (by simp; omega) tail rfl
      exact ⟨_, .lexeme hs hb hr ht⟩

/-- What the rules of the lexer grant of each segment that they cut. -/
structure Segment.IsSound (g : Segment) : Prop where
  blanks : IsBlank g.blanks
  /-- The source starts with a byte that is no blank. -/
  starts : ∃ b more, g.lexeme.source = b :: more ∧ Byte.isBlank b = false
  spelled : g.lexeme.IsSpelled
  ordinal : g.lexeme.content = .ordinal ↔ g.lexeme.source = [Byte.question]

namespace Cuts

/-- **Partition**: the segments are the input without the blanks at its end. -/
theorem exists_join {s : Bytes} {gs : List Segment} (h : Cuts s gs) :
    ∃ blanks, IsBlank blanks ∧ s = Segment.join gs ++ blanks := by
  induction h with
  | blank hs => exact ⟨_, hs, rfl⟩
  | lexeme hs hb hr ht ih =>
    obtain ⟨blanks, hblanks, rfl⟩ := ih
    exact ⟨blanks, hblanks, by simp [hr]⟩

/-- **Locality**: what is left after some of the segments is cut into the others. -/
theorem tail {s : Bytes} {gs gs' : List Segment} (h : Cuts s (gs ++ gs')) :
    ∃ rest, s = Segment.join gs ++ rest ∧ Cuts rest gs' := by
  induction gs generalizing s with
  | nil => exact ⟨s, rfl, h⟩
  | cons g gs ih =>
    cases h with
    | lexeme hs hb hr ht =>
      obtain ⟨rest, rfl, hrest⟩ := ih ht
      exact ⟨rest, by simp [hr], hrest⟩

/-- **Soundness**: each segment is granted what the rules grant. -/
theorem isSound {s : Bytes} {gs : List Segment} (h : Cuts s gs) : ∀ g ∈ gs, g.IsSound := by
  induction h with
  | blank hs => simp
  | @lexeme blanks more tail b gs hs hb hr ht ih =>
    intro g hg
    rcases List.mem_cons.1 hg with rfl | hg
    · exact ⟨hs, ⟨b, more, hr, hb⟩, Lexeme.read_isSpelled b _,
        Lexeme.content_eq_ordinal_iff b _⟩
    · exact ih g hg

end Cuts

end SqlTokens
