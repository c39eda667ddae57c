import Mathlib.Data.List.Nodup
import Mathlib.Data.List.TakeWhile
import SqlTokens.CommandLine.Arguments
import SqlTokens.Proofs.Stepwise.Reader

/-! # Options that are complete in one argument

    An option with its value in the same argument, `--name=value`, is taken over at once and as
    it is, whatever the value is.  So a row of such options, none of them twice, gives just the
    settings that were written (`Given.read_settings`), and what is found under an option does
    not depend on their order (`lookup_perm`).

    In whatever way options are written, each is checked before it is taken over, so that no
    path is ever empty (`Given.IsFilled.add`, `Given.IsFilled.read`). -/

namespace SqlTokens

/-! ## Single options -/

/-- An option with its value, if it has one, in a single argument. -/
def Opt.argument (o : Opt) : Option String → String
  | none => "--" ++ o.long
  | some value => "--" ++ o.long ++ "=" ++ value

/-- The option may be given with this value, and asks for nothing else. -/
structure Opt.Accepts (o : Opt) (value : Option String) : Prop where
  /-- It has a value exactly if it must have one. -/
  takesValue : o.takesValue = value.isSome
  /-- A path is not empty. -/
  filled : o.isPath = true → value ≠ some ""
  /-- It does not ask for help or for the version. -/
  plain : o ≠ .help ∧ o ≠ .version

/-- The name of an option ends at the equals sign behind it. -/
theorem Opt.long_ne_equals (o : Opt) : ∀ c ∈ o.long.toList, (c != '=') = true := by
  have hall : o.long.toList.all (· != '=') = true := by cases o <;> decide
  exact List.all_eq_true.1 hall

theorem Opt.long_ne_nil (o : Opt) : o.long.toList ≠ [] := by
  cases o <;> decide

theorem Opt.toList_argument_none (o : Opt) :
    (o.argument none).toList = '-' :: '-' :: o.long.toList := by
  simp [argument]

theorem Opt.toList_argument_some (o : Opt) (value : String) :
    (o.argument (some value)).toList = '-' :: '-' :: (o.long.toList ++ '=' :: value.toList) := by
  simp [argument]

/-- The argument is told apart into the name and the value, whatever the value is. -/
theorem Shape.of_argument (o : Opt) (value : Option String) :
    Shape.of (o.argument value) = .long o.long value := by
  have hname := o.long_ne_equals
  obtain ⟨c, name, hlong⟩ := List.exists_cons_of_ne_nil o.long_ne_nil
  have hofList : String.ofList (c :: name) = o.long := by
    rw [← hlong, String.ofList_toList]
  unfold Shape.of
  rw [hlong] at hname
  cases value with
  | none =>
    have htake : (c :: name).takeWhile (· != '=') = c :: name :=
      List.takeWhile_eq_self_iff.2 hname
    rw [o.toList_argument_none, hlong]
    simp only [htake, List.drop_length, hofList]
  | some value =>
    have htake : (c :: name ++ '=' :: value.toList).takeWhile (· != '=') = c :: name := by
      rw [List.takeWhile_append_of_pos hname]
      simp
    rw [o.toList_argument_some, hlong]
    simp only [List.cons_append] at htake ⊢
    rw [htake]
    simp [hofList]

/-- An option is found under its name, where it may stand. -/
theorem Scope.find?_long {scope : Scope} {o : Opt} (ho : o ∈ scope.options) :
    scope.options.find? (fun other => other.long == o.long) = some o := by
  revert ho
  cases scope <;> cases o <;> decide

/-! ## Rows of options -/

/-- Options with their values that may be given together. -/
structure Scope.Fits (scope : Scope) (settings : List (Opt × Option String)) : Prop where
  /-- Each may stand there, with the value that it has. -/
  each : ∀ setting ∈ settings, setting.1 ∈ scope.options ∧ setting.1.Accepts setting.2
  /-- None is given twice. -/
  nodup : (settings.map Prod.fst).Nodup

theorem Scope.Fits.perm {scope : Scope} {settings settings' : List (Opt × Option String)}
    (h : scope.Fits settings) (hperm : settings'.Perm settings) : scope.Fits settings' where
  each setting hmem := h.each setting (hperm.mem_iff.1 hmem)
  nodup := (hperm.map Prod.fst).nodup_iff.2 h.nodup

/-- Options as arguments, one for each. -/
def Opt.arguments (settings : List (Opt × Option String)) : List String :=
  settings.map fun setting => setting.1.argument setting.2

namespace Given

/-- Options were read, and nothing else. -/
def ofSettings (settings : List (Opt × Option String)) : Given :=
  ⟨settings, none, [], false⟩

theorem settle_of_accepts {g : Given} {o : Opt} {value : Option String} (h : o.Accepts value)
    (hnew : g.has o = false) :
    g.settle o value = .ok { g with settled := g.settled ++ [(o, value)] } := by
  obtain ⟨htakes, hfilled, hhelp, hversion⟩ := h
  have hmissing : (o.takesValue && value.isNone) = false := by
    rw [htakes]
    cases value <;> rfl
  have hempty : (o.isPath && value == some "") = false := by
    cases hpath : o.isPath with
    | false => rfl
    | true => simp [hfilled hpath]
  unfold settle
  simp [hmissing, hnew, hempty, hhelp, hversion]

/-- An option that is not among those that were read is not found. -/
theorem has_ofSettings_of_not_mem {settings : List (Opt × Option String)} {o : Opt}
    (h : o ∉ settings.map Prod.fst) : (ofSettings settings).has o = false := by
  have hnone : settings.lookup o = none := by
    rw [List.lookup_eq_none_iff]
    intro setting hmem
    exact bne_iff_ne.2 fun heq => h (heq ▸ List.mem_map_of_mem hmem)
  exact congrArg Option.isSome hnone

/-- **One option**: it is taken over at once, as it is. -/
theorem add_argument {scope : Scope} {before : List (Opt × Option String)} {o : Opt}
    {value : Option String} (hmem : o ∈ scope.options) (h : o.Accepts value)
    (hnew : o ∉ before.map Prod.fst) :
    (ofSettings before).add scope (o.argument value) =
      .ok (ofSettings (before ++ [(o, value)])) := by
  have hsettle : (ofSettings before).settle o value = .ok (ofSettings (before ++ [(o, value)])) :=
    settle_of_accepts h (has_ofSettings_of_not_mem hnew)
  have htakes := h.takesValue
  unfold add
  rw [if_neg (by simp [ofSettings]), Shape.of_argument]
  show addLong scope (ofSettings before) o.long value = _
  unfold addLong
  rw [Scope.find?_long hmem]
  cases value with
  | none =>
    rw [Option.isSome_none] at htakes
    simp only [htakes]
    exact hsettle
  | some value =>
    rw [Option.isSome_some] at htakes
    simp only [htakes]
    exact hsettle

/-- In a row of options that may be given together, each is new to those before it. -/
theorem add_of_fits {scope : Scope} {before more : List (Opt × Option String)}
    {setting : Opt × Option String} (h : scope.Fits (before ++ setting :: more)) :
    (ofSettings before).add scope (setting.1.argument setting.2) =
      .ok (ofSettings (before ++ [setting])) := by
  obtain ⟨hmem, haccepts⟩ := h.each setting (by simp)
  have hnodup := h.nodup
  rw [List.map_append, List.nodup_append] at hnodup
  obtain ⟨-, -, hdisjoint⟩ := hnodup
  apply add_argument hmem haccepts
  intro hbefore
  exact hdisjoint _ hbefore _ (by simp) rfl

/-- **Rows of options**: they are taken over in order, and what follows is read after them. -/
theorem read_settings {scope : Scope} {before settings : List (Opt × Option String)}
    (h : scope.Fits (before ++ settings)) (args : List String) :
    (ofSettings before).read scope (Opt.arguments settings ++ args) =
      (ofSettings (before ++ settings)).read scope args := by
  induction settings generalizing before with
  | nil => rw [List.append_nil, Opt.arguments, List.map_nil, List.nil_append]
  | cons setting settings ih =>
    have hadd := add_of_fits h
    rw [List.append_cons] at h ⊢
    show ((ofSettings before).add scope (setting.1.argument setting.2) >>= fun g =>
      g.read scope (Opt.arguments settings ++ args)) = _
    rw [hadd, ok_bind, ih h]

end Given

/-- No option is the name of a command. -/
theorem Scope.isCommandName_argument (o : Opt) (value : Option String) :
    isCommandName (o.argument value) = false := by
  have hhead : (o.argument value).toList.head? = some '-' := by
    cases value with
    | none => rw [o.toList_argument_none, List.head?_cons]
    | some value => rw [o.toList_argument_some, List.head?_cons]
  have hne : ∀ name : String, name.toList.head? ≠ some '-' → (o.argument value == name) = false :=
    fun name hname => beq_eq_false_iff_ne.2 fun h => hname (h ▸ hhead)
  simp [isCommandName, commands, helpName, List.lookup_cons, hne "help" (by decide),
    hne "tokenize" (by decide), hne "placeholders" (by decide), hne "keywords" (by decide)]

/-- Options of the program are taken over in order as well, and the name of a command may
    follow. -/
theorem readProgram_settings {before settings : List (Opt × Option String)}
    (h : Scope.program.Fits (before ++ settings)) (args : List String) :
    readProgram (.ofSettings before) (Opt.arguments settings ++ args) =
      readProgram (.ofSettings (before ++ settings)) args := by
  induction settings generalizing before with
  | nil => rw [List.append_nil, Opt.arguments, List.map_nil, List.nil_append]
  | cons setting settings ih =>
    have hadd := Given.add_of_fits h
    have hname := Scope.isCommandName_argument setting.1 setting.2
    rw [List.append_cons] at h ⊢
    show readProgram (.ofSettings before)
      (setting.1.argument setting.2 :: (Opt.arguments settings ++ args)) = _
    rw [readProgram, hname, Bool.and_false, if_neg (by decide), hadd, ok_bind, ih h]

/-! ## What is found under an option -/

section
variable {settings settings' : List (Opt × Option String)}

theorem lookup_eq_some_iff_mem (h : (settings.map Prod.fst).Nodup) (o : Opt)
    (value : Option String) : settings.lookup o = some value ↔ (o, value) ∈ settings := by
  rw [List.lookup_eq_some_iff]
  constructor
  · rintro ⟨before, after, rfl, -⟩
    simp
  · intro hmem
    obtain ⟨before, after, rfl⟩ := List.append_of_mem hmem
    refine ⟨before, after, rfl, ?_⟩
    intro setting hbefore
    rw [List.map_append, List.nodup_append] at h
    exact bne_iff_ne.2 (h.2.2 _ (List.mem_map_of_mem hbefore) o (by simp)).symm

/-- The order in which options were given does not matter. -/
theorem lookup_perm (h : (settings.map Prod.fst).Nodup) (hperm : settings.Perm settings')
    (o : Opt) : settings.lookup o = settings'.lookup o := by
  have h' : (settings'.map Prod.fst).Nodup := (hperm.map Prod.fst).nodup_iff.1 h
  ext value
  rw [lookup_eq_some_iff_mem h, lookup_eq_some_iff_mem h', hperm.mem_iff]

end

/-! ## What is taken over -/

namespace Given

/-- No path that was taken over is empty. -/
def IsFilled (g : Given) : Prop :=
  ∀ setting ∈ g.settled, setting.1.isPath = true → setting.2 ≠ some ""

theorem isFilled_empty : empty.IsFilled := by
  simp [IsFilled, empty]

section
variable {scope : Scope} {g g' : Given} {o : Opt} {value : Option String}

theorem IsFilled.value? (h : g.IsFilled) (ho : o.isPath = true) : g.value? o ≠ some "" := by
  intro hvalue
  have hlookup : g.settled.lookup o = some (some "") := Option.join_eq_some_iff.1 hvalue
  obtain ⟨before, after, hsettled, -⟩ := List.lookup_eq_some_iff.1 hlookup
  exact h (o, some "") (by simp [hsettled]) ho rfl

/-- An option is checked before it is taken over. -/
theorem IsFilled.settle (h : g.IsFilled) (hg' : g.settle o value = .ok g') : g'.IsFilled := by
  unfold Given.settle at hg'
  split at hg'
  · cases hg'
  split at hg'
  · cases hg'
  split at hg'
  · cases hg'
  next hfilled =>
  split at hg'
  · cases hg'
  split at hg'
  · cases hg'
  cases hg'
  intro setting hmem hpath
  rcases List.mem_append.1 hmem with hmem | hmem
  · exact h setting hmem hpath
  · obtain rfl := List.mem_singleton.1 hmem
    simpa [hpath] using hfilled

theorem IsFilled.settlePending (h : g.IsFilled) (hg' : g.settlePending = .ok g') :
    g'.IsFilled := by
  unfold Given.settlePending at hg'
  split at hg'
  · cases hg'
    exact h
  · exact IsFilled.settle (g := { g with pending := none }) h hg'

theorem IsFilled.addOption (h : g.IsFilled) (hg' : g.addOption o value = .ok g') :
    g'.IsFilled := by
  obtain ⟨settled, hsettled, hlast⟩ := of_bind_eq_ok hg'
  exact (h.settlePending hsettled).settle hlast

theorem IsFilled.addPending (h : g.IsFilled) (hg' : g.addPending o = .ok g') : g'.IsFilled := by
  obtain ⟨settled, hsettled, hlast⟩ := of_bind_eq_ok hg'
  have hfilled := h.settlePending hsettled
  cases hlast
  exact hfilled

theorem IsFilled.addLong {name : String} (h : g.IsFilled)
    (hg' : g.addLong scope name value = .ok g') : g'.IsFilled := by
  unfold Given.addLong at hg'
  split at hg'
  · cases hg'
  split at hg'
  · exact h.addPending hg'
  · exact h.addOption hg'
  · exact h.addOption hg'
  · cases hg'

theorem IsFilled.addShort {letters : List Char} (h : g.IsFilled)
    (hg' : g.addShort scope letters = .ok g') : g'.IsFilled := by
  induction letters generalizing g with
  | nil =>
    cases hg'
    exact h
  | cons c letters ih =>
    unfold Given.addShort at hg'
    split at hg'
    · cases hg'
    split at hg'
    · split at hg'
      · exact h.addPending hg'
      · exact h.addOption hg'
      · exact h.addOption hg'
    · obtain ⟨next, hnext, hmore⟩ := of_bind_eq_ok hg'
      exact ih (h.addOption hnext) hmore

theorem IsFilled.addOperand {arg : String} (h : g.IsFilled)
    (hg' : g.addOperand scope arg = .ok g') : g'.IsFilled := by
  unfold Given.addOperand at hg'
  split at hg'
  · obtain ⟨settled, hsettled, hlast⟩ := of_bind_eq_ok hg'
    have hfilled := h.settlePending hsettled
    cases hlast
    exact hfilled
  · cases hg'

/-- **One argument**: whatever it is, no empty path is taken over. -/
theorem IsFilled.add {arg : String} (h : g.IsFilled) (hg' : g.add scope arg = .ok g') :
    g'.IsFilled := by
  unfold Given.add at hg'
  split at hg'
  · exact h.addOperand hg'
  split at hg'
  · cases hg'
    exact h
  · exact h.addLong hg'
  · exact h.addShort hg'
  · split at hg'
    · cases hg'
      exact h
    · exact h.addOperand hg'

theorem IsFilled.read {args : List String} (h : g.IsFilled) (hg' : g.read scope args = .ok g') :
    g'.IsFilled := by
  induction args generalizing g with
  | nil =>
    cases hg'
    exact h
  | cons arg args ih =>
    obtain ⟨next, hnext, hmore⟩ := of_bind_eq_ok hg'
    exact ih (h.add hnext) hmore

end

end Given

end SqlTokens
