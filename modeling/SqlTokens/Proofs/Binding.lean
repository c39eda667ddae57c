import SqlTokens.Proofs.Numbering
import SqlTokens.Proofs.Visibility
import SqlTokens.Template.Basic

/-! # Binding of arguments

    The names of a template are made again from the number of `?` in its text, apart
    from the tokens that the text is read into, and the arguments are paired with the
    names by their place.  `Template.bind_nth` says that the three agree: the `n`-th
    `?` of the text, whatever stands around it, takes the `n`-th argument. -/

namespace SqlTokens

open Utf8 (ofString)

/-- The names that are made for `q` placeholders without one. -/
def ordinalTexts (q : Nat) : List String :=
  (List.range q).map fun i => ":v" ++ toString (i + 1)

@[simp] theorem length_ordinalTexts (q : Nat) : (ordinalTexts q).length = q := by
  simp [ordinalTexts]

theorem getElem_ordinalTexts {q i : Nat} (h : i < (ordinalTexts q).length) :
    (ordinalTexts q)[i] = ":v" ++ toString (i + 1) := by
  simp [ordinalTexts]

/-- Different numbers make different names. -/
theorem ordinalText_injective {m n : Nat} (h : ":v" ++ toString m = ":v" ++ toString n) :
    m = n := by
  have hlist := congrArg String.toList h
  rw [String.toList_append, String.toList_append] at hlist
  have hdigits := List.append_cancel_left hlist
  rw [Nat.toString_eq_repr, Nat.toString_eq_repr, Nat.toList_repr, Nat.toList_repr] at hdigits
  -- The digits are those of base ten, from which a number is read back.
  have hvalue := congrArg (fun ds => Nat.ofDigitChars 10 ds 0) hdigits
  simpa using hvalue

theorem nodup_ordinalTexts (q : Nat) : (ordinalTexts q).Nodup :=
  List.Pairwise.map _ (fun _ _ hij h => hij (Nat.succ.inj (ordinalText_injective h)))
    List.nodup_range

/-- What is paired with a name is found under it, if no name comes twice. -/
theorem lookup_zip {α : Type} {names : List String} (hn : names.Nodup) {args : List α} {i : Nat}
    (hi : i < names.length) (hi' : i < args.length) :
    (names.zip args).lookup names[i] = some args[i] := by
  induction names generalizing args i with
  | nil => cases hi
  | cons name names ih =>
    cases args with
    | nil => cases hi'
    | cons arg args =>
      obtain ⟨hname, hnames⟩ := List.nodup_cons.1 hn
      cases i with
      | zero => simp
      | succ i =>
        -- The search passes over the first name, for no later one is the same.
        have hi₁ : i < names.length := Nat.lt_of_succ_lt_succ hi
        have hne : names[i] ≠ name := fun h => hname (h ▸ List.getElem_mem hi₁)
        have hrest := ih hnames hi₁ (Nat.lt_of_succ_lt_succ hi')
        have hbeq : (names[i] == name) = false := beq_false_of_ne hne
        simpa [List.lookup_cons, hbeq] using hrest

/-! ## The names of a statement -/

section
variable {sql : String} (h : ∀ x ∈ scanned (ofString sql), x.token.isMalformed = false)
include h

/-- The names that are made again are as many as there are `?`. -/
theorem ordinalNames_eq :
    Lexer.ordinalNames sql = .ok (ordinalTexts (questionsOf (ofString sql)).length) := by
  obtain ⟨hresult, hlast, hlexer⟩ := Lexer.readStatement_of_wellFormed h
  have hordinals := (questions_numbered (ofString sql)).2 _ hlast
  show (_ >>= _) = _
  rw [hresult]
  show Except.ok ((List.range (Lexer.ordinals _)).map _) = _
  rw [hlexer, show Lexer.ordinals _ = _ from hordinals]
  rfl

theorem ofText_eq :
    Template.ofText sql = .ok ⟨sql, ordinalTexts (questionsOf (ofString sql)).length⟩ := by
  show (_ >>= _) = _
  rw [ordinalNames_eq h]
  rfl

/-- A placeholder is no comment, so it is handed out. -/
theorem placeholderNames_eq :
    Lexer.placeholderNames sql =
      .ok ((placeholdersOf (ofString sql)).map fun x => x.token.text) := by
  obtain ⟨hresult, -, -⟩ := Lexer.readStatement_of_wellFormed h
  show (_ >>= _) = _
  rw [Lexer.tokenize, hresult]
  have hshown : ∀ x : Scanned, (x.token.kind == .placeholder && x.isShown false) =
      (x.token.kind == .placeholder) := by
    intro x
    cases hk : x.token.kind == .placeholder with
    | false => rfl
    | true => simp [Scanned.isShown, beq_iff_eq.1 hk]
  show Except.ok (List.map _ (List.filter _ (List.map _ (List.filter _ _)))) = _
  rw [List.filter_map, List.map_map, List.filter_filter]
  simp only [Function.comp_def, hshown]
  rfl

end

/-- The texts of the `?` are the names that are made for them. -/
theorem texts_of_questions (input : Bytes) :
    (questionsOf input).map (fun x => x.token.text) = ordinalTexts (questionsOf input).length := by
  have hnumbered := (questions_numbered input).1
  have htexts := congrArg
    (List.map fun p : Option Bytes × Nat => Utf8.toStringLossy (p.1.getD [])) hnumbered
  rw [List.map_map, List.map_map, List.range'_eq_map_range, List.map_map] at htexts
  apply htexts.trans
  apply List.map_congr_left
  intro i _
  show Utf8.toStringLossy (ofString (":v" ++ toString (1 + i))) = _
  rw [Utf8.toStringLossy_ofString, Nat.add_comm]

/-- The placeholders that do not start with a colon are the `?`. -/
theorem questions_eq_filter (input : Bytes) :
    questionsOf input =
      (placeholdersOf input).filter fun x => (x.source input).head? != some Byte.colon := by
  rw [questionsOf, placeholdersOf, List.filter_filter]
  apply List.filter_congr
  intro x hx
  rw [Bool.eq_iff_iff, isQuestion_iff hx]
  simp [and_comm]

/-! ## Arguments -/

namespace Template

/-- Arguments are paired with the names in order, if there are as many. -/
theorem bind_eq {α : Type} (s : Template) (args : List α) :
    s.bind args =
      if args.length = s.arity then .ok (s.placeholders.zip args)
      else .error (.binding (.arity s.arity args.length)) := by
  show (_ >>= _) = _
  rw [checkArity]
  split
  · rfl
  · rfl

/-- **The `n`-th argument**: let no token of the statement be malformed.  The names that
    are made for its `?` are as many as the `?`, and no two are the same; among the names
    of all placeholders they are those that are not written with a colon.  Arguments
    are bound if there are as many of them, and then the `n`-th `?` of the statement
    takes the `n`-th argument, which is also found under the name of that `?`. -/
theorem bind_nth (sql : String)
    (h : ∀ x ∈ scanned (ofString sql), x.token.isMalformed = false) :
    let input := ofString sql
    let names := ordinalTexts (questionsOf input).length
    (Lexer.ordinalNames sql = .ok names ∧ ofText sql = .ok ⟨sql, names⟩ ∧ names.Nodup) ∧
    (Lexer.placeholderNames sql = .ok ((placeholdersOf input).map fun x => x.token.text) ∧
      (∀ x ∈ placeholdersOf input, x.token.value = some (ofString x.token.text)) ∧
      ((placeholdersOf input).filter fun x => (x.source input).head? != some Byte.colon).map
        (fun x => x.token.text) = names) ∧
    ∀ {α : Type} (args : List α),
      ((∃ pairs, bind ⟨sql, names⟩ args = .ok pairs) ↔
        args.length = (questionsOf input).length) ∧
      ∀ pairs, bind ⟨sql, names⟩ args = .ok pairs →
        pairs.length = (questionsOf input).length ∧
        ∀ i (hi : i < (questionsOf input).length), ∃ name arg,
          (questionsOf input)[i].token.value = some (ofString name) ∧ args[i]? = some arg ∧
          pairs[i]? = some (name, arg) ∧ pairs.lookup name = some arg := by
  intro input names
  have hnodup : names.Nodup := nodup_ordinalTexts _
  have hlength : names.length = (questionsOf input).length := length_ordinalTexts _
  refine ⟨⟨ordinalNames_eq h, ofText_eq h, hnodup⟩,
    ⟨placeholderNames_eq h, fun x hx => value_of_placeholder hx, ?_⟩, fun args => ⟨?_, ?_⟩⟩
  · rw [← questions_eq_filter, texts_of_questions]
  · rw [bind_eq, ← hlength]
    show _ ↔ args.length = arity ⟨sql, names⟩
    split
    · next ha => exact ⟨fun _ => ha, fun _ => ⟨_, rfl⟩⟩
    · next ha => exact ⟨fun ⟨_, hp⟩ => (by cases hp), fun ha' => absurd ha' ha⟩
  · -- The `n`-th pair has the `n`-th name, and that name was made for the `n`-th `?`.
    intro pairs hpairs
    rw [bind_eq] at hpairs
    split at hpairs
    · next ha =>
      cases hpairs
      have ha' : args.length = names.length := ha
      have hcount : (names.zip args).length = (questionsOf input).length := by
        rw [List.length_zip, ha', Nat.min_self, hlength]
      refine ⟨hcount, ?_⟩
      intro i hi
      have hname : i < names.length := hlength ▸ hi
      have harg : i < args.length := ha' ▸ hname
      refine ⟨names[i], args[i], ?_, List.getElem?_eq_getElem harg, ?_,
        lookup_zip hnodup hname harg⟩
      · -- Its value was made from its number, which is that of its place.
        have hvalue := congrArg (fun xs => xs[i]?) (questions_numbered input).1
        simp only [List.getElem?_map, List.getElem?_eq_getElem hi, List.getElem?_range' hi,
          Option.map_some, Option.some.injEq, Prod.mk.injEq] at hvalue
        rw [getElem_ordinalTexts hname, hvalue.1, ordinalName, Nat.one_mul, Nat.add_comm 1]
      · rw [List.getElem?_zip_eq_some]
        exact ⟨List.getElem?_eq_getElem hname, List.getElem?_eq_getElem harg⟩
    · cases hpairs

/-- Neither a placeholder that is written `:v1` nor a quoted byte takes an argument. -/
theorem bind_nth_mixed :
    (∀ x ∈ scanned (ofString "?,:v1,'?',?"), x.token.isMalformed = false) ∧
    ofText "?,:v1,'?',?" = .ok ⟨"?,:v1,'?',?", [":v1", ":v2"]⟩ ∧
    ∃ pairs, bind ⟨"?,:v1,'?',?", [":v1", ":v2"]⟩ [10, 20] = .ok pairs ∧ pairs.length = 2 ∧
      ∃ x name, (questionsOf (ofString "?,:v1,'?',?"))[1]? = some x ∧
        x.token.value = some (ofString name) ∧ pairs.lookup name = some 20 := by
  have h : ∀ x ∈ scanned (ofString "?,:v1,'?',?"), x.token.isMalformed = false := by
    decide +kernel
  have hq : (questionsOf (ofString "?,:v1,'?',?")).length = 2 := by decide +kernel
  have hnames : ordinalTexts (questionsOf (ofString "?,:v1,'?',?")).length = [":v1", ":v2"] := by
    rw [hq]
    decide
  obtain ⟨⟨-, htext, -⟩, -, hbind⟩ := bind_nth "?,:v1,'?',?" h
  rw [hnames] at htext hbind
  obtain ⟨hiff, hpairs⟩ := hbind [10, 20]
  obtain ⟨pairs, hok⟩ := hiff.2 hq.symm
  obtain ⟨hlength, hnth⟩ := hpairs pairs hok
  obtain ⟨name, arg, hvalue, harg, -, hlookup⟩ := hnth 1 (by rw [hq]; decide)
  cases harg
  exact ⟨h, htext, pairs, hok, hlength.trans hq, _, name, List.getElem?_eq_getElem _, hvalue,
    hlookup⟩

end Template

end SqlTokens
