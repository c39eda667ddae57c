import SqlTokens.Config.Environment
import SqlTokens.Proofs.Decoding

/-! # Settings that are overridden

    A variable of the environment overrides a setting if its value is a text.  The text that
    switches comments on or off is one of a few words, whatever blanks are around it and
    whatever the case of its letters; any other text is an error, and then the level is not
    overridden either.

    * **Words**: `Text.spells_iff`, and from it the meaning of a switch and of a level.
    * **Variables**: `Environment.GivesComments` and `Environment.GivesLevel` — what a
      variable makes of the setting that it finds.
    * **Settings**: `Config.applyEnvironment_eq_ok_iff` and
      `Config.applyEnvironment_eq_error_iff`. -/

namespace SqlTokens

open Utf8 (ofString)

/-! ## Words -/

namespace Text

/-- What can be seen of ASCII is no blank. -/
theorem isBlank_eq_false {c : Char} (h : 0x21 ≤ c.toNat) (h' : c.toNat < 0x85) :
    isBlank c = false := by
  simp [isBlank, blankRanges]
  omega

/-- No letter is a blank, so blanks have no case. -/
theorem isBlank_toLower (c : Char) : isBlank c.toLower = isBlank c := by
  unfold Char.toLower
  by_cases hupper : c.val ≥ 'A'.val ∧ c.val ≤ 'Z'.val
  · have hleast : 65 ≤ c.val.toNat := UInt32.le_iff_toNat_le.1 hupper.1
    have hmost : c.val.toNat ≤ 90 := UInt32.le_iff_toNat_le.1 hupper.2
    have hlower : (c.val + ('a'.val - 'A'.val)).toNat = c.val.toNat + 32 := by
      rw [UInt32.toNat_add, show ('a'.val - 'A'.val).toNat = 32 by decide]
      omega
    rw [dif_pos hupper, isBlank_eq_false, isBlank_eq_false]
    · show 0x21 ≤ c.val.toNat
      omega
    · show c.val.toNat < 0x85
      omega
    · show 0x21 ≤ (c.val + ('a'.val - 'A'.val)).toNat
      omega
    · show (c.val + ('a'.val - 'A'.val)).toNat < 0x85
      omega
  · rw [dif_neg hupper]

/-- Blanks before a text without blanks are taken off it. -/
theorem dropWhile_blanks {blanks word : List Char} (hblanks : ∀ c ∈ blanks, isBlank c = true)
    (hword : ∀ c ∈ word, isBlank c = false) (rest : List Char) :
    (blanks ++ (word ++ rest)).dropWhile isBlank =
      if word = [] then rest.dropWhile isBlank else word ++ rest := by
  rw [List.dropWhile_append_of_pos hblanks]
  cases word with
  | nil => simp
  | cons c word =>
    have hc := hword c List.mem_cons_self
    simp [hc]

/-- A text without blanks is what is left when the blanks around it are taken off. -/
theorem trim_surrounded {before word after : List Char}
    (hbefore : ∀ c ∈ before, isBlank c = true) (hword : ∀ c ∈ word, isBlank c = false)
    (hafter : ∀ c ∈ after, isBlank c = true) : trim (before ++ word ++ after) = word := by
  have hword' : ∀ c ∈ word.reverse, isBlank c = false := by simpa using hword
  have hafter' : ∀ c ∈ after.reverse, isBlank c = true := by simpa using hafter
  unfold trim
  rw [List.append_assoc, dropWhile_blanks hbefore hword]
  by_cases hnil : word = []
  · subst hnil
    have hdrop : after.dropWhile isBlank = [] := by
      rw [← List.append_nil after, List.dropWhile_append_of_pos hafter, List.dropWhile_nil]
    rw [if_pos rfl, hdrop]
    rfl
  · have hnil' : word.reverse ≠ [] := by simpa using hnil
    have hdrop := dropWhile_blanks hafter' hword' []
    rw [if_neg hnil', List.append_nil] at hdrop
    rw [if_neg hnil, List.reverse_append, hdrop, List.reverse_reverse]

/-- What is taken off is blank. -/
theorem exists_blanks_trim (text : List Char) :
    ∃ before after, text = before ++ trim text ++ after ∧
      (∀ c ∈ before, isBlank c = true) ∧ ∀ c ∈ after, isBlank c = true := by
  have hblank : ∀ s : List Char, ∀ c ∈ s.takeWhile isBlank, isBlank c = true :=
    fun s => List.all_eq_true.1 List.all_takeWhile
  let behind := (text.dropWhile isBlank).reverse
  refine ⟨text.takeWhile isBlank, (behind.takeWhile isBlank).reverse, ?_, hblank text, ?_⟩
  · have hbehind : text.dropWhile isBlank =
        (behind.dropWhile isBlank).reverse ++ (behind.takeWhile isBlank).reverse := by
      rw [← List.reverse_append, List.takeWhile_append_dropWhile, List.reverse_reverse]
    unfold trim
    rw [List.append_assoc, ← hbehind, List.takeWhile_append_dropWhile]
  · simpa using hblank behind

/-- The text is one of the words, whatever blanks are around it and whatever the case of its
    letters. -/
def Spells (words : List String) (text : String) : Prop :=
  ∃ before word after, text.toList = before ++ word ++ after ∧
    (∀ c ∈ before, isBlank c = true) ∧ (∀ c ∈ after, isBlank c = true) ∧
    ∃ w ∈ words, toLower word = w.toList

/-- Words without blanks are found when the blanks are taken off. -/
theorem spells_iff {words : List String}
    (hwords : (words.all fun w => w.toList.all fun c => !isBlank c) = true) (text : String) :
    Spells words text ↔ String.ofList (toLower (trim text.toList)) ∈ words := by
  constructor
  · rintro ⟨before, word, after, htext, hbefore, hafter, w, hw, hlower⟩
    have hword : ∀ c ∈ word, isBlank c = false := by
      intro c hc
      have hall := List.all_eq_true.1 (List.all_eq_true.1 hwords w hw) c.toLower
      rw [isBlank_toLower] at hall
      simpa using hall (hlower ▸ List.mem_map_of_mem hc)
    rw [htext, trim_surrounded hbefore hword hafter, hlower, String.ofList_toList]
    exact hw
  · intro h
    obtain ⟨before, after, htext, hbefore, hafter⟩ := exists_blanks_trim text.toList
    exact ⟨before, _, after, htext, hbefore, hafter, _, h, String.toList_ofList.symm⟩

end Text

/-- A text that switches something on. -/
def SwitchesOn (text : String) : Prop :=
  Text.Spells ["1", "true", "yes", "on"] text

/-- A text that switches something off. -/
def SwitchesOff (text : String) : Prop :=
  Text.Spells ["0", "false", "no", "off"] text

theorem switchesOn_iff {text : String} : SwitchesOn text ↔ switch? text = some true := by
  rw [SwitchesOn, Text.spells_iff (by decide), switch?]
  simp only [onWords, List.contains_iff_mem]
  split
  · next hon => simp [hon]
  · next hon =>
    simp only [hon, false_iff]
    split <;> simp

theorem switchesOff_iff {text : String} : SwitchesOff text ↔ switch? text = some false := by
  rw [SwitchesOff, Text.spells_iff (by decide), switch?]
  simp only [onWords, offWords, List.contains_iff_mem]
  split
  · next hon =>
    -- No word switches both on and off.
    have hapart : (onWords.all fun w => !offWords.contains w) = true := by decide
    simpa [offWords] using List.all_eq_true.1 hapart _ hon
  · split
    · next hoff => simp [hoff]
    · next hoff => simp [hoff]

theorem switch?_eq_none_iff {text : String} :
    switch? text = none ↔ ¬SwitchesOn text ∧ ¬SwitchesOff text := by
  rw [switchesOn_iff, switchesOff_iff]
  cases switch? text with
  | none => simp
  | some isOn => cases isOn <;> simp

/-- A text that names a level, whatever the case of its letters. -/
def NamesLevel (text : String) : Prop :=
  ∃ w ∈ ["error", "warn", "info", "debug", "trace"], Text.toLower text.toList = w.toList

theorem namesLevel_iff {text : String} : NamesLevel text ↔ Config.isLevel text = true := by
  have hword : ∀ w : String, Text.toLower text.toList = w.toList ↔
      String.ofList (Text.toLower text.toList) = w := by
    intro w
    rw [← String.toList_inj, String.toList_ofList]
  simp only [NamesLevel, hword, Config.isLevel, Config.levels, List.contains_iff_mem]
  simp

/-! ## Variables -/

namespace Environment

section
variable {env : Environment} {text : String}

theorem allowCommentsText?_eq_some_iff :
    env.allowCommentsText? = some text ↔ env.allowComments = some (ofString text) :=
  Utf8.bind_toString?_eq_some_iff

theorem allowCommentsText?_eq_none_iff :
    env.allowCommentsText? = none ↔ ∀ text, env.allowComments ≠ some (ofString text) :=
  Utf8.bind_toString?_eq_none_iff

theorem levelText?_eq_some_iff :
    env.levelText? = some text ↔ env.level = some (ofString text) :=
  Utf8.bind_toString?_eq_some_iff

theorem levelText?_eq_none_iff :
    env.levelText? = none ↔ ∀ text, env.level ≠ some (ofString text) :=
  Utf8.bind_toString?_eq_none_iff

end

/-- What the variable for comments makes of the setting below it. -/
inductive GivesComments (env : Environment) (below : Bool) : Bool → Prop
  /-- The variable is set to a text that switches comments on. -/
  | on {text : String} (hset : env.allowComments = some (ofString text))
    (hon : SwitchesOn text) : GivesComments env below true
  /-- The variable is set to a text that switches comments off. -/
  | off {text : String} (hset : env.allowComments = some (ofString text))
    (hoff : SwitchesOff text) : GivesComments env below false
  /-- The variable is not set to a text. -/
  | kept (hunset : ∀ text, env.allowComments ≠ some (ofString text)) :
    GivesComments env below below

/-- What the variable for the level makes of the setting below it. -/
inductive GivesLevel (env : Environment) (below : String) : String → Prop
  /-- The variable is set to this text. -/
  | set {text : String} (hset : env.level = some (ofString text)) : GivesLevel env below text
  /-- The variable is not set to a text. -/
  | kept (hunset : ∀ text, env.level ≠ some (ofString text)) : GivesLevel env below below

/-- The variable for comments is set to a text that switches nothing. -/
def IsUnclear (env : Environment) (text : String) : Prop :=
  env.allowComments = some (ofString text) ∧ ¬SwitchesOn text ∧ ¬SwitchesOff text

theorem isUnclear_iff {env : Environment} {text : String} :
    env.IsUnclear text ↔ env.allowCommentsText? = some text ∧ switch? text = none := by
  rw [IsUnclear, allowCommentsText?_eq_some_iff, switch?_eq_none_iff]

/-- The setting for comments is that of the variable, if it is set to a text. -/
theorem givesComments_iff {env : Environment} {below shown : Bool} :
    env.GivesComments below shown ↔
      env.allowCommentsText?.elim (some below) switch? = some shown := by
  constructor
  · intro h
    cases h with
    | on hset hon =>
      rw [allowCommentsText?_eq_some_iff.2 hset, Option.elim_some, switchesOn_iff.1 hon]
    | off hset hoff =>
      rw [allowCommentsText?_eq_some_iff.2 hset, Option.elim_some, switchesOff_iff.1 hoff]
    | kept hunset => rw [allowCommentsText?_eq_none_iff.2 hunset, Option.elim_none]
  · cases htext : env.allowCommentsText? with
    | none =>
      rw [Option.elim_none, Option.some.injEq]
      rintro rfl
      exact .kept (allowCommentsText?_eq_none_iff.1 htext)
    | some text =>
      rw [Option.elim_some]
      intro hswitch
      have hset := allowCommentsText?_eq_some_iff.1 htext
      cases shown with
      | true => exact .on hset (switchesOn_iff.2 hswitch)
      | false => exact .off hset (switchesOff_iff.2 hswitch)

theorem givesLevel_iff {env : Environment} {below level : String} :
    env.GivesLevel below level ↔ level = env.levelText?.getD below := by
  constructor
  · intro h
    cases h with
    | set hset => rw [levelText?_eq_some_iff.2 hset, Option.getD_some]
    | kept hunset => rw [levelText?_eq_none_iff.2 hunset, Option.getD_none]
  · rintro rfl
    cases htext : env.levelText? with
    | none => exact .kept (levelText?_eq_none_iff.1 htext)
    | some text => exact .set (levelText?_eq_some_iff.1 htext)

end Environment

/-! ## Settings -/

namespace Config

/-- What the environment makes of settings, by what its variables are set to. -/
theorem applyEnvironment_eq (env : Environment) (c : Config) :
    c.applyEnvironment env =
      env.allowCommentsText?.elim (.ok ⟨c.allowComments, env.levelText?.getD c.level⟩) fun text =>
        (switch? text).elim
          (.error (.configuration (.unknownSwitch "SHARDSQL_ALLOW_COMMENTS" text)))
          fun isOn => .ok ⟨isOn, env.levelText?.getD c.level⟩ := by
  unfold applyEnvironment
  cases env.allowCommentsText? with
  | none => rfl
  | some text =>
    dsimp only [Option.elim_some]
    cases switch? text with
    | none => rfl
    | some isOn => rfl

/-- The settings are overridden one by one, each by its own variable. -/
theorem applyEnvironment_eq_ok_iff {env : Environment} {c result : Config} :
    c.applyEnvironment env = .ok result ↔
      env.GivesComments c.allowComments result.allowComments ∧
        env.GivesLevel c.level result.level := by
  obtain ⟨shown, level⟩ := result
  rw [Environment.givesComments_iff, Environment.givesLevel_iff, applyEnvironment_eq]
  cases env.allowCommentsText? with
  | none => simp [eq_comm]
  | some text =>
    simp only [Option.elim_some]
    cases switch? text with
    | none => simp
    | some isOn => simp [eq_comm]

/-- There is one way to fail, and the level has no part in it. -/
theorem applyEnvironment_eq_error_iff {env : Environment} {c : Config} {e : Error} :
    c.applyEnvironment env = .error e ↔
      ∃ text, env.IsUnclear text ∧
        e = .configuration (.unknownSwitch "SHARDSQL_ALLOW_COMMENTS" text) := by
  simp only [Environment.isUnclear_iff, applyEnvironment_eq]
  cases env.allowCommentsText? with
  | none => simp
  | some text =>
    simp only [Option.elim_some, Option.some.injEq]
    cases hswitch : switch? text with
    | none =>
      simp only [Option.elim_none, Except.error.injEq]
      constructor
      · intro he
        exact ⟨text, ⟨rfl, hswitch⟩, he.symm⟩
      · rintro ⟨_, ⟨rfl, -⟩, rfl⟩
        rfl
    | some isOn => simp [hswitch]

end Config

end SqlTokens
