import SqlTokens.Proofs.Lockstep

/-! # The horizon of a lexer

    A lexer sees the byte that comes next and no byte behind it.  So two inputs are the
    same to a session if they agree through the byte that comes next when it is over:
    whatever stands behind that byte, the replies are the same, and so is all that can
    be asked of the lexer (`Lexer.session_horizon`).

    * **One scan**: `Scanner.next_exchange` — another tail, with the same byte at its
      head, changes nothing but the tail.
    * **One command**: `Lexer.Exchanged.perform` — the same, for all that may be asked. -/

namespace SqlTokens

/-! ## What can be seen -/

namespace Lexer

/-- What can be asked of a lexer at once: all but the bytes that are left. -/
structure Status where
  position : Nat
  ordinals : Nat
  showsComments : Bool
  isTruncated : Bool
  lastText : Option Bytes
  lastDiagnosis : Option String
  deriving DecidableEq

def status (lx : Lexer) : Status :=
  ⟨lx.position, lx.ordinals, lx.showsComments, lx.isTruncated, lx.lastText, lx.lastDiagnosis⟩

/-- What a consumer sees of the outcome of a command. -/
structure Sight where
  reply : Reply
  status : Status
  log : List LogRecord

def Outcome.sight (outcome : Outcome) : Sight :=
  ⟨outcome.reply, outcome.lexer.status, outcome.log⟩

/-! What is changed alike in two lexers that cannot be told apart keeps them so. -/

section
variable {lx lx' : Lexer} (h : lx'.status = lx.status)
include h

theorem status_lastText_congr (text : Option Bytes) :
    { lx' with lastText := text }.status = { lx with lastText := text }.status :=
  congrArg (fun status : Status => { status with lastText := text }) h

theorem status_lastDiagnosis_congr (message : String) :
    { lx' with lastDiagnosis := some message }.status =
      { lx with lastDiagnosis := some message }.status :=
  congrArg (fun status : Status => { status with lastDiagnosis := some message }) h

theorem status_truncate_congr : lx'.truncate.status = lx.truncate.status :=
  congrArg (fun status : Status => { status with isTruncated := true }) h

theorem status_showComments_congr (shown : Bool) :
    (lx'.showComments shown).status = (lx.showComments shown).status :=
  congrArg (fun status : Status => { status with showsComments := shown }) h

/-- A message tells nothing that cannot be asked for. -/
theorem diagnosis_congr (message : String) : lx'.diagnosis message = lx.diagnosis message := by
  have hposition : lx'.position = lx.position := congrArg Status.position h
  have htext : lx'.lastText = lx.lastText := congrArg Status.lastText h
  rw [diagnosis, diagnosis, hposition, htext]

theorem status_report_congr (message : String) :
    (lx'.report message).status = (lx.report message).status := by
  rw [report, report, diagnosis_congr h]
  exact status_lastDiagnosis_congr h _

end

end Lexer

/-! ## One scan -/

/-- **One scan**: let a scanner, after its next token, have `t` left or more.  If it had
    another tail in the place of `t`, with the same byte at its head, it would hand out
    the same token. -/
theorem Scanner.next_exchange {x y t t' : Bytes} {p n : Nat} (h : t'.head? = t.head?)
    (hrest : (next ⟨⟨x ++ t, p⟩, n⟩).2.cursor.rest = y ++ t) :
    next ⟨⟨x ++ t', p⟩, n⟩ = ((next ⟨⟨x ++ t, p⟩, n⟩).1,
      ⟨⟨y ++ t', (next ⟨⟨x ++ t, p⟩, n⟩).2.position⟩, (next ⟨⟨x ++ t, p⟩, n⟩).2.ordinals⟩) := by
  rcases blank_or_lexeme (x ++ t) with hs | ⟨blanks, b, more, tail, hbytes, hs, hb, hr⟩
  · -- The end was reached, so nothing is there to exchange.
    rw [next_blank hs] at hrest ⊢
    obtain ⟨rfl, rfl⟩ := List.append_eq_nil_iff.1 hrest.symm
    obtain rfl : t' = [] := List.head?_eq_none_iff.1 h
    exact next_blank hs p n
  · -- The tail lies behind the lexeme, which is read alike in front of the other.
    rw [hbytes, next_lexeme hs hb hr] at hrest
    obtain rfl : tail = y ++ t := hrest
    have hsplit : x ++ t = blanks ++ b :: (more ++ y) ++ t := by
      rw [hbytes]
      simp
    obtain rfl : x = blanks ++ b :: (more ++ y) := List.append_cancel_right hsplit
    have hread := Lexeme.read_isLocal b hr
      ((Replaces.of_head?_eq h _).append (y := b :: more) (x := y) rfl)
    have hr' : (Lexeme.read b (more ++ (y ++ t'))).source = b :: more := by rw [hread, hr]
    rw [hbytes, next_lexeme hs hb hr, show blanks ++ b :: (more ++ y) ++ t' =
      blanks ++ b :: (more ++ (y ++ t')) by simp, next_lexeme hs hb hr', hread]
    rfl

namespace Lexer

/-! ## Lexers with another tail -/

/-- The two lexers only differ in the tail of what is left: where one of them has `t`,
    the other has `t'`. -/
structure Exchanged (t t' : Bytes) (lx lx' : Lexer) : Prop where
  rest : ∃ x, lx.scanner.cursor.rest = x ++ t ∧ lx'.scanner.cursor.rest = x ++ t'
  status : lx'.status = lx.status

/-- The lexer has `t` left, or more. -/
def Keeps (t : Bytes) (lx : Lexer) : Prop :=
  t <:+ lx.scanner.cursor.rest

theorem Keeps.of_passes {t : Bytes} {lx later : Lexer} (h : lx.scanner.Passes later.scanner)
    (hlater : later.Keeps t) : lx.Keeps t := by
  obtain ⟨passed, hrest, -⟩ := h
  unfold Keeps
  rw [hrest]
  exact hlater.trans (List.suffix_append _ _)

namespace Exchanged

variable {t t' : Bytes} {lx lx' : Lexer}

theorem scan (hhead : t'.head? = t.head?) (h : lx.Exchanged t t' lx')
    (hin : lx.scan.2.Keeps t) : lx.scan.1 = lx'.scan.1 ∧ lx.scan.2.Exchanged t t' lx'.scan.2 := by
  obtain ⟨⟨⟨rest, p⟩, n⟩, shows, truncated, text, diagnosis⟩ := lx
  obtain ⟨⟨⟨rest', p'⟩, n'⟩, shows', truncated', text', diagnosis'⟩ := lx'
  obtain ⟨⟨x, rfl, rfl⟩, hstatus⟩ := h
  cases hstatus
  cases truncated with
  | true => exact ⟨rfl, ⟨x, rfl, rfl⟩, rfl⟩
  | false =>
    obtain ⟨y, hy⟩ := hin
    have hnext := Scanner.next_exchange (x := x) (p := p) (n := n) hhead hy.symm
    simp only [Lexer.scan, hnext]
    exact ⟨rfl, ⟨y, hy.symm, rfl⟩, rfl⟩

theorem lockstep (hhead : t'.head? = t.head?) : Lockstep (Keeps t) (Exchanged t t') Eq where
  within hpasses hin := hin.of_passes hpasses
  scan h hin := h.scan hhead hin
  kind h := congrArg Token.kind h.symm
  shown h := congrArg Status.showsComments h.status
  lastText h htoken := by
    subst htoken
    exact ⟨h.rest, status_lastText_congr h.status _⟩

end Exchanged

/-- The outcome of a reading is made of its tokens and of what can be asked of the lexer
    after it. -/
theorem Course.sight_congr {c c' : Course} (htokens : c'.tokens = c.tokens)
    (hlast : c'.last.1 = c.last.1) (hstatus : c'.last.2.status = c.last.2.status) :
    c'.result = c.result ∧ c'.lexer.status = c.lexer.status ∧ c'.log = c.log := by
  have hmessage : c'.last.2.malformedDiagnosis = c.last.2.malformedDiagnosis :=
    diagnosis_congr hstatus _
  refine ⟨?_, ?_, ?_⟩
  · rw [result, result, error?, error?, hlast, hmessage, htokens]
  · rw [lexer, lexer, hlast]
    split
    · rw [hmessage]
      exact status_lastDiagnosis_congr hstatus _
    · exact hstatus
  · rw [log, log, htokens, hlast, hmessage]

namespace Exchanged

variable {t t' : Bytes} {lx lx' : Lexer}

/-- **One command**: if the lexer still has `t` left after it, its outcome is the same
    with the other tail. -/
theorem perform (hhead : t'.head? = t.head?) (h : lx.Exchanged t t' lx') (command : Command)
    (hin : (lx.perform command).lexer.Keeps t) :
    (lx'.perform command).sight = (lx.perform command).sight ∧
      (lx.perform command).lexer.Exchanged t t' (lx'.perform command).lexer := by
  cases command with
  | next =>
    obtain ⟨htoken, hafter⟩ := (lockstep hhead).next h hin
    refine ⟨?_, hafter⟩
    show Sight.mk (.token lx'.next.1) lx'.next.2.status [.token lx'.next.1] = _
    rw [← htoken, hafter.status]
    rfl
  | scan =>
    obtain ⟨htoken, hafter⟩ := h.scan hhead hin
    refine ⟨?_, hafter⟩
    show Sight.mk (.token lx'.scan.1) lx'.scan.2.status [] = _
    rw [← htoken, hafter.status]
    rfl
  | tokenize =>
    have hlast : lx.readStatement.last.2.Keeps t := by
      rw [Keeps, ← Course.scanner_lexer]
      exact hin
    have hpaired := (lockstep hhead).readStatement h hlast
    have htokens := List.forall₂_eq_eq_eq.le _ _ (hpaired.tokens fun _ _ hpull => hpull.1)
    obtain ⟨hresult, hstatus, hlog⟩ := Course.sight_congr htokens.symm hpaired.last.1.symm
      hpaired.last.2.status
    constructor
    · show Sight.mk (.statement lx'.readStatement.result) lx'.readStatement.lexer.status
        lx'.readStatement.log = _
      rw [hresult, hstatus, hlog]
      rfl
    · -- To remember a message moves nothing.
      refine ⟨?_, hstatus⟩
      show ∃ x, lx.readStatement.lexer.scanner.cursor.rest = x ++ t ∧
        lx'.readStatement.lexer.scanner.cursor.rest = x ++ t'
      rw [Course.scanner_lexer, Course.scanner_lexer]
      exact hpaired.last.2.rest
  | truncate =>
    have hstatus := status_truncate_congr h.status
    exact ⟨congrArg (Sight.mk .done · []) hstatus, h.rest, hstatus⟩
  | comments shown =>
    have hstatus := status_showComments_congr h.status shown
    exact ⟨congrArg (Sight.mk .done · []) hstatus, h.rest, hstatus⟩
  | report message =>
    have hmessage := diagnosis_congr h.status message
    have hstatus := status_report_congr h.status message
    refine ⟨?_, h.rest, hstatus⟩
    show Sight.mk .done (lx'.report message).status [.diagnosis (lx'.diagnosis message)] = _
    rw [hstatus, hmessage]
    rfl

end Exchanged

/-! ## Whole sessions -/

/-- What is left of two inputs that agree through the byte at a place. -/
theorem head?_drop_eq_of_take_eq {x y : Bytes} {q : Nat} (hq : 1 ≤ q) (h : y.take q = x.take q) :
    (y.drop (q - 1)).head? = (x.drop (q - 1)).head? := by
  have hbyte := congrArg (fun s : Bytes => s[q - 1]?) h
  rw [List.head?_drop, List.head?_drop]
  simpa [List.getElem?_take, Nat.sub_lt hq Nat.one_pos] using hbyte

/-- **The horizon**: let a session of a fresh lexer of `x` end at position `q`, and let
    `y` agree with `x` in its first `q` bytes; if `x` has less, that is to say that `y`
    is `x`.  The same session on `y` has the same replies, refusals among them, and
    after each of its commands the lexer is the same to whoever asks it. -/
theorem session_horizon (x y : Bytes) (shown : Bool) (commands : List Command)
    (h : let q := (((start x).showComments shown).after commands).position
      y.take q = x.take q) :
    (((start y).showComments shown).session commands).map Outcome.sight =
      (((start x).showComments shown).session commands).map Outcome.sight := by
  obtain ⟨q, hq⟩ : ∃ q, (((start x).showComments shown).after commands).position = q := ⟨_, rfl⟩
  have hsound : (((start x).showComments shown).after commands).IsSound x :=
    (IsSound.start x shown).of_passes (after_passes _ commands)
  have hpos : 1 ≤ q := hq ▸ hsound.position_pos
  simp only [hq] at h
  -- The two inputs are the bytes that were passed, and two tails with the same head.
  have hbefore : y.take (q - 1) = x.take (q - 1) := by
    have := congrArg (List.take (q - 1)) h
    simpa [List.take_take] using this
  have hstart : ((start x).showComments shown).Exchanged (x.drop (q - 1)) (y.drop (q - 1))
      ((start y).showComments shown) := by
    refine ⟨⟨x.take (q - 1), (List.take_append_drop _ x).symm, ?_⟩, rfl⟩
    rw [← hbefore]
    exact (List.take_append_drop _ y).symm
  have hrest : (((start x).showComments shown).after commands).scanner.cursor.rest =
      x.drop (q - 1) := by rw [hsound.rest, hq]
  have hin : (((start x).showComments shown).after commands).Keeps (x.drop (q - 1)) :=
    ⟨[], hrest.symm⟩
  have hhead := head?_drop_eq_of_take_eq hpos h
  have hsession := session_forall₂ (O := fun o o' => o'.sight = o.sight) Keeps.of_passes
    (fun command h => Exchanged.perform hhead h command) hstart hin
  apply List.forall₂_eq_eq_eq.le
  rw [List.forall₂_map_left_iff, List.forall₂_map_right_iff]
  exact hsession.flip

/-- Behind a `<` the nine that comes next is seen, and not what kind of number it starts. -/
theorem session_horizon_comparison :
    let x := Utf8.ofString "?/*?*/'it''s'<9.5e"
    let y := Utf8.ofString "?/*?*/'it''s'<9/*'"
    let commands := [.next, .next, .report "here", .scan, .truncate, .tokenize]
    (((start x).showComments false).after commands).position = 15 ∧ y.take 15 = x.take 15 ∧
    (((start y).showComments false).session commands).map Outcome.sight =
      (((start x).showComments false).session commands).map Outcome.sight := by
  intro x y commands
  have hq : (((start x).showComments false).after commands).position = 15 := by decide +kernel
  have h : y.take 15 = x.take 15 := by decide +kernel
  refine ⟨hq, h, session_horizon x y false commands ?_⟩
  rw [hq]
  exact h

end Lexer

end SqlTokens
