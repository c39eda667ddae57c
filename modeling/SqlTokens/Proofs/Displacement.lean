import Mathlib.Data.List.Forall2
import SqlTokens.Proofs.Stream

/-! # Displacement

    The same segments, laid out at another place of another input, give the same
    tokens, moved: every position changes by one amount, every number of a `?` by
    another, and nothing else changes.  The names that are made for the `?` change
    with their numbers, and only they do: a placeholder that is written with such a
    name keeps it. -/

namespace SqlTokens

/-- `y` is the token `x` of the scan stream of `input`, moved by `k` bytes and with
    its number raised by `m`. -/
structure Scanned.Moved (input : Bytes) (k m : Int) (x y : Scanned) : Prop where
  kind : y.token.kind = x.token.kind
  position : (y.token.position : Int) = x.token.position + k
  stop : (y.stop : Int) = x.stop + k
  ordinals : (y.ordinals : Int) = x.ordinals + m
  /-- The text is the same, except where it is the name that was made for a `?`. -/
  value : if x.source input = [Byte.question] then
      x.token.value = some (ordinalName x.ordinals) ∧
        y.token.value = some (ordinalName y.ordinals)
    else y.token.value = x.token.value

theorem Content.value?_eq_of_ne {c : Content} (h : c ≠ .ordinal) (n n' : Nat) :
    c.value? n = c.value? n' := by
  cases c with
  | absent => rfl
  | text bytes => rfl
  | ordinal => exact absurd rfl h

theorem Content.count_eq_add {n n' : Nat} {m : Int} (h : (n' : Int) = n + m) (c : Content) :
    ((c.count n' : Nat) : Int) = (c.count n : Nat) + m := by
  rw [Segment.count_eq, Segment.count_eq]
  push_cast
  omega

namespace Segment

/-- **Displacement**: the layouts of the same segments at two places. -/
theorem layout_moved {gs : List Segment} (hgs : ∀ g ∈ gs, g.IsSound) (before after : Bytes)
    {k m : Int} {p' n n' : Nat} (hp : (p' : Int) = (before.length + 1 : Nat) + k)
    (hn : (n' : Int) = n + m) :
    List.Forall₂ (Scanned.Moved (before ++ (join gs ++ after)) k m)
      (layout (before.length + 1) n gs) (layout p' n' gs) := by
  induction gs generalizing before p' n n' with
  | nil => exact .nil
  | cons g gs ih =>
    have hg := hgs g List.mem_cons_self
    have hcount := Content.count_eq_add hn g.lexeme.content
    refine .cons ⟨rfl, ?_, ?_, hcount, ?_⟩ ?_
    · push_cast at hp ⊢
      omega
    · push_cast at hp ⊢
      omega
    · -- The source is that of the segment, and only a `?` has a text that is counted.
      simp only [join_cons, List.append_assoc]
      rw [Scanned.source_middle]
      split
      · next hq =>
        rw [hg.ordinal.2 hq]
        exact ⟨rfl, rfl⟩
      · next hq => exact Content.value?_eq_of_ne (fun ho => hq (hg.ordinal.1 ho)) _ _
    · -- The rest of the segments starts where this one ends.
      have hlen : before.length + 1 + g.blanks.length + g.lexeme.source.length =
          (before ++ (g.blanks ++ g.lexeme.source)).length + 1 := by
        simp only [List.length_append]
        omega
      have hp' : ((p' + g.blanks.length + g.lexeme.source.length : Nat) : Int) =
          ((before ++ (g.blanks ++ g.lexeme.source)).length + 1 : Nat) + k := by
        rw [← hlen]
        push_cast at hp ⊢
        omega
      have hrest := ih (fun g' hg' => hgs g' (List.mem_cons_of_mem _ hg'))
        (before ++ (g.blanks ++ g.lexeme.source)) hp' hcount
      simp only [join_cons, List.append_assoc] at hrest ⊢
      rw [hlen]
      exact hrest

/-- The whole scan streams from two places on, the end among them. -/
theorem stream_moved {gs : List Segment} {s : Bytes} (h : Cuts s gs) (before : Bytes)
    {k m : Int} {p' n n' : Nat} (hp : (p' : Int) = (before.length + 1 : Nat) + k)
    (hn : (n' : Int) = n + m) :
    List.Forall₂ (Scanned.Moved (before ++ s) k m)
      (stream (before.length + 1) n s gs) (stream p' n' s gs) := by
  obtain ⟨blanks, -, hs⟩ := h.exists_join
  have hlayout := layout_moved h.isSound before blanks hp hn
  rw [← hs] at hlayout
  refine List.rel_append hlayout (.cons ⟨rfl, ?_, ?_, ?_, ?_⟩ .nil)
  · show ((p' + s.length : Nat) : Int) = (before.length + 1 + s.length : Nat) + k
    push_cast at hp ⊢
    omega
  · show ((p' + s.length : Nat) : Int) = (before.length + 1 + s.length : Nat) + k
    push_cast at hp ⊢
    omega
  · show ((n' + ordinals gs : Nat) : Int) = (n + ordinals gs : Nat) + m
    push_cast
    omega
  · -- The end has no bytes, so it is no placeholder.
    rw [if_neg (by simp)]
    rfl

end Segment

end SqlTokens
