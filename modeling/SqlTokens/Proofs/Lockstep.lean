import Mathlib.Data.List.Forall2
import SqlTokens.Proofs.Counting

/-! # Lexers in step

    Two lexers, perhaps of different inputs, are compared by what relates them from one
    scan to the next.  Whatever else can be asked of a lexer is made of scans, so that
    the relation need only be checked for a scan.  It may be bound to a part of the
    input, and then says nothing of how they go on behind it.

    * **One scan**: `Lexer.Lockstep` — what is to be checked.
    * **One pull**: `Lexer.Lockstep.pull` — of any view.
    * **Courses**: `Lexer.Lockstep.course` — pull by pull.
    * **Sessions**: `Lexer.session_forall₂` — command by command. -/

namespace SqlTokens.Lexer

/-- Two lexers that are related by `R` stay so when both scan, as long as the first of
    them stays within a part of its input, and the tokens are related by `T`. -/
structure Lockstep (Within : Lexer → Prop) (R : Lexer → Lexer → Prop)
    (T : Token → Token → Prop) : Prop where
  /-- Who is still within that part was so before. -/
  within : ∀ {lx later : Lexer}, lx.scanner.Passes later.scanner → Within later → Within lx
  scan : ∀ {lx lx' : Lexer}, R lx lx' → Within lx.scan.2 →
    T lx.scan.1 lx'.scan.1 ∧ R lx.scan.2 lx'.scan.2
  /-- Related tokens are of the same kind. -/
  kind : ∀ {t t' : Token}, T t t' → t'.kind = t.kind
  /-- Both lexers show comments, or none does. -/
  shown : ∀ {lx lx' : Lexer}, R lx lx' → lx'.showsComments = lx.showsComments
  /-- Both may remember what they handed out. -/
  lastText : ∀ {lx lx' : Lexer} {t t' : Token}, R lx lx' → T t t' →
    R { lx with lastText := t.value } { lx' with lastText := t'.value }

/-- Two courses that are related pull by pull. -/
structure Course.Paired (Q : Pull → Pull → Prop) (c c' : Course) : Prop where
  before : List.Forall₂ Q c.before c'.before
  last : Q c.last c'.last

namespace Course.Paired

variable {Q : Pull → Pull → Prop} {c c' : Course}

theorem cons {pull pull' : Pull} (hpull : Q pull pull') (h : c.Paired Q c') :
    (c.cons pull).Paired Q (c'.cons pull') :=
  ⟨.cons hpull h.before, h.last⟩

theorem pulls (h : c.Paired Q c') : List.Forall₂ Q c.pulls c'.pulls :=
  List.rel_append h.before (.cons h.last .nil)

theorem tokens {T : Token → Token → Prop} (h : c.Paired Q c')
    (hQ : ∀ pull pull', Q pull pull' → T pull.1 pull'.1) :
    List.Forall₂ T c.tokens c'.tokens := by
  rw [Course.tokens, Course.tokens, List.forall₂_map_left_iff, List.forall₂_map_right_iff]
  exact h.pulls.imp hQ

end Course.Paired

namespace Lockstep

variable {Within : Lexer → Prop} {R : Lexer → Lexer → Prop} {T : Token → Token → Prop}

/-- Two pulls whose tokens are related, and the lexers after them as well. -/
def Together (R : Lexer → Lexer → Prop) (T : Token → Token → Prop) (pull pull' : Pull) : Prop :=
  T pull.1 pull'.1 ∧ R pull.2 pull'.2

theorem next (h : Lockstep Within R T) {lx lx' : Lexer} (hR : R lx lx')
    (hin : Within lx.next.2) : Together R T lx.next lx'.next := by
  -- By induction on the comments that the first lexer passes over.
  fun_induction Lexer.next lx generalizing lx' with
  | case1 lx token after hs hc ih =>
    have hpasses := (isKept_passes after.scanner).next after (.refl _)
    have hafter : Within lx.scan.2 := by
      rw [hs]
      exact h.within hpasses hin
    obtain ⟨htoken, hnext⟩ := h.scan hR hafter
    rw [hs] at htoken hnext
    have hskips : lx'.scan.1.kind = .comment ∧ !lx'.showsComments := by
      rw [h.kind htoken, h.shown hR]
      exact hc
    rw [next_eq lx', if_pos hskips]
    exact ih hnext hin
  | case2 lx token after hs hc =>
    have hpasses : after.scanner.Passes { after with lastText := token.value }.scanner := .refl _
    have hafter : Within lx.scan.2 := by
      rw [hs]
      exact h.within hpasses hin
    obtain ⟨htoken, hnext⟩ := h.scan hR hafter
    rw [hs] at htoken hnext
    have hstays : ¬(lx'.scan.1.kind = .comment ∧ !lx'.showsComments) := by
      rw [h.kind htoken, h.shown hR]
      exact hc
    rw [next_eq lx', if_neg hstays]
    exact ⟨htoken, h.lastText hnext htoken⟩

/-- **One pull**: what relates the lexers is kept by the pulls of any view. -/
theorem pull (h : Lockstep Within R T) (view : View) {lx lx' : Lexer} (hR : R lx lx')
    (hin : Within (lx.pull view).2) : Together R T (lx.pull view) (lx'.pull view) := by
  cases view with
  | everything => exact h.scan hR hin
  | shown => exact h.next hR hin

/-- **Courses**: the lexers go in step to the end of a course, if it depends on nothing
    but the kind of a token where it stops. -/
theorem course (h : Lockstep Within R T) (view : View) {stops : Token → Bool}
    (hstops : ∀ t t' : Token, t'.kind = t.kind → stops t' = stops t) {lx lx' : Lexer}
    (hR : R lx lx') (hin : Within (lx.course view stops).last.2) :
    (lx.course view stops).Paired (Together R T) (lx'.course view stops) := by
  -- By induction on what is left: a pull leaves less, unless it is the last.
  induction hn : lx.remaining using Nat.strongRecOn generalizing lx lx' with
  | ind n ih =>
    subst hn
    rw [course_eq lx] at hin ⊢
    rw [course_eq lx']
    by_cases hends : (lx.pull view).1.kind = .endOfInput ∨ stops (lx.pull view).1
    · rw [if_pos hends] at hin ⊢
      have hpull := h.pull view hR hin
      have hends' : (lx'.pull view).1.kind = .endOfInput ∨ stops (lx'.pull view).1 := by
        rw [hstops _ _ (h.kind hpull.1), h.kind hpull.1]
        exact hends
      rw [if_pos hends']
      exact ⟨.nil, hpull⟩
    · rw [if_neg hends] at hin ⊢
      have hpasses := (isKept_passes (lx.pull view).2.scanner).courseOnto view stops []
        (lx.pull view).2 (.refl _)
      have hpull := h.pull view hR (h.within hpasses hin)
      have hends' : ¬((lx'.pull view).1.kind = .endOfInput ∨ stops (lx'.pull view).1) := by
        rw [hstops _ _ (h.kind hpull.1), h.kind hpull.1]
        exact hends
      rw [if_neg hends']
      have hless := lx.remaining_pull_lt view fun hkind => hends (.inl hkind)
      exact .cons hpull (ih _ hless hpull.2 hin rfl)

/-- The reading of a statement stops by the kind of a token. -/
theorem readStatement (h : Lockstep Within R T) {lx lx' : Lexer} (hR : R lx lx')
    (hin : Within lx.readStatement.last.2) :
    lx.readStatement.Paired (Together R T) lx'.readStatement := by
  apply h.course .shown ?_ hR hin
  intro t t' hkind
  rw [Token.isMalformed, Token.isMalformed, hkind]

end Lockstep

/-! ## Sessions -/

theorem after_passes (lx : Lexer) (commands : List Command) :
    lx.scanner.Passes (lx.after commands).scanner := by
  induction commands generalizing lx with
  | nil => exact .refl _
  | cons command more ih =>
    rw [after_cons]
    exact (lx.perform_passes command).trans (ih _)

/-- **Sessions**: what relates two lexers and is kept by each command relates the
    outcomes of a whole session, as long as the first lexer stays within a part of its
    input. -/
theorem session_forall₂ {Within : Lexer → Prop} {R : Lexer → Lexer → Prop}
    {O : Outcome → Outcome → Prop}
    (hwithin : ∀ {lx later : Lexer}, lx.scanner.Passes later.scanner → Within later → Within lx)
    (hperform : ∀ {lx lx' : Lexer} (command : Command), R lx lx' →
      Within (lx.perform command).lexer →
      O (lx.perform command) (lx'.perform command) ∧
        R (lx.perform command).lexer (lx'.perform command).lexer)
    {lx lx' : Lexer} (hR : R lx lx') {commands : List Command}
    (hin : Within (lx.after commands)) :
    List.Forall₂ O (lx.session commands) (lx'.session commands) := by
  -- By induction on the commands: the step, and then the session from behind it.
  induction commands generalizing lx lx' with
  | nil => exact .nil
  | cons command more ih =>
    rw [after_cons] at hin
    have hstep := hwithin ((lx.perform command).lexer.after_passes more) hin
    obtain ⟨houtcome, hafter⟩ := hperform command hR hstep
    exact .cons houtcome (ih hafter hin)

end SqlTokens.Lexer
