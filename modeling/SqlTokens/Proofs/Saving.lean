import SqlTokens.Proofs.Atomicity
import SqlTokens.Proofs.Layers
import SqlTokens.Proofs.Toml.Statements

/-! # Saved settings are loaded as they were

    A file of settings is a document of two tables, and reading it gives back the settings for
    which it was written, whatever text the level is.

    * **One file**: `Config.read?_toText` for the document, `Config.ofFile_toText` for the
      settings in it.
    * **Histories**: `Config.Context.save_loads` — no command but one that saves changes what
      was saved (`saved_perform`, `saved_after`), and so it can be loaded at any later time. -/

namespace SqlTokens.Config

open Toml (Entries IsBare Denotes writeTable)
open Utf8 (ofString)

/-- The document of these settings. -/
def entries (c : Config) : Entries :=
  [("lexer", .table .header [("allow_comments", .boolean c.allowComments)]),
    ("logging", .table .header [("level", .string c.level)])]

/-- What is written around two values makes two tables, with an empty line between them. -/
theorem writeTable_writeTable (table name table' name' : String) (written written' : List Char) :
    '[' :: (table.toList ++ ']' :: '\n' :: (name.toList ++ [' ', '=', ' '])) ++ written ++
        '\n' :: '\n' :: '[' :: (table'.toList ++ ']' :: '\n' ::
          (name'.toList ++ [' ', '=', ' '])) ++ written' ++ ['\n'] =
      writeTable table name written ++ '\n' :: writeTable table' name' written' := by
  simp [writeTable]

/-- The file of some settings is a document of two tables. -/
theorem toList_toText (c : Config) :
    c.toText.toList = writeTable "lexer" "allow_comments" (writeBool c.allowComments).toList ++
      '\n' :: writeTable "logging" "level" (Toml.writeText c.level.toList) := by
  have hlexer : "[lexer]\nallow_comments = ".toList =
      '[' :: ("lexer".toList ++ ']' :: '\n' :: ("allow_comments".toList ++ [' ', '=', ' '])) := by
    decide
  have hlogging : "\n\n[logging]\nlevel = ".toList =
      '\n' :: '\n' :: '[' :: ("logging".toList ++ ']' :: '\n' ::
        ("level".toList ++ [' ', '=', ' '])) := by
    decide
  have hend : "\n".toList = ['\n'] := by decide
  unfold toText
  simp only [String.toList_append, String.toList_ofList]
  rw [hlexer, hlogging, hend]
  exact writeTable_writeTable ..

theorem denotes_writeBool (b : Bool) : Denotes (writeBool b).toList (.boolean b) := by
  cases b with
  | true => exact Toml.denotes_true
  | false => exact Toml.denotes_false

/-- What is read of that document is what was written. -/
theorem read?_toText (c : Config) : Toml.read? c.toText.toList = some c.entries := by
  have hlexer : IsBare "lexer".toList := ⟨by decide, by decide⟩
  have hcomments : IsBare "allow_comments".toList := ⟨by decide, by decide⟩
  have hlogging : IsBare "logging".toList := ⟨by decide, by decide⟩
  have hlevel : IsBare "level".toList := ⟨by decide, by decide⟩
  have hdenotes : Denotes (Toml.writeText c.level.toList) (.string c.level) := by
    have htext := Toml.denotes_writeText c.level.toList
    rwa [String.ofList_toList] at htext
  have hmark : Toml.withoutMark c.toText.toList = c.toText.toList := by
    rw [toList_toText]
    rfl
  have hall : Toml.addAll .empty c.toText.toList = some ⟨["logging"], c.entries⟩ :=
    calc Toml.addAll .empty c.toText.toList
      _ = Toml.addAll ⟨["lexer"], c.entries.take 1⟩
            ('\n' :: writeTable "logging" "level" (Toml.writeText c.level.toList)) := by
        rw [toList_toText]
        exact Toml.addAll_writeTable hlexer hcomments (denotes_writeBool c.allowComments) rfl 0 _
      _ = Toml.addAll ⟨["logging"], c.entries⟩ [] := by
        rw [← List.append_nil (writeTable "logging" "level" _)]
        exact Toml.addAll_writeTable hlogging hlevel hdenotes rfl 1 []
      _ = some ⟨["logging"], c.entries⟩ := by
        rw [Toml.addAll]
        rfl
  rw [Toml.read?, hmark, hall]
  rfl

/-- The settings that a text holds are those for which it was written. -/
theorem ofText?_toText (c : Config) : ofText? c.toText = some c := by
  rw [ofText?, read?_toText]
  rfl

theorem ofFile_toText (c : Config) : ofFile (some (ofString c.toText)) = .ok c :=
  ofFile_eq_ok_iff.2 ⟨c.toText, rfl, ofText?_toText c⟩

namespace Context

/-! ## Histories -/

section
variable {x : Context}

/-- What was saved stays as it is until settings are saved again. -/
theorem saved_perform {command : Command} (h : command ≠ .save true) :
    (x.perform command).2.saved = x.saved := by
  rcases x.perform_cases command with (hkept | ⟨config, hset, -⟩) | ⟨environment, hset⟩ | hsave
  · rw [hkept]
  · rw [hset]
  · rw [hset]
  · exact absurd hsave h

theorem saved_after {commands : List Command} (h : .save true ∉ commands) :
    (x.after commands).saved = x.saved := by
  induction commands generalizing x with
  | nil => rfl
  | cons command more ih =>
    rw [List.mem_cons, not_or] at h
    exact (ih h.2).trans (saved_perform (Ne.symm h.1))

/-- The settings that were saved come into force again. -/
theorem perform_reload {c : Config} (h : x.saved = some (ofString c.toText)) :
    x.perform .reload = (.truth (c == x.config), { x with config := c }) := by
  have hload : ofFile x.saved = .ok c := by rw [h, ofFile_toText]
  show x.replace _ (ofFile x.saved) = _
  rw [hload]
  rfl

end

/-- **Saving**: settings can always be saved where a file can be written, and loading what was
    written gives them back, whatever the level is.

    So they can be loaded again after any commands that save no other settings: the ones that
    were saved are in force then, and the answer says whether they already were. -/
theorem save_loads (x : Context) :
    ∃ text, x.perform (.save true) = (.text text, { x with saved := some (ofString text) }) ∧
      (∀ content, readText content = .ok text → ofFile content = .ok x.config) ∧
      ∀ commands y, .save true ∉ commands →
        Context.after { x with saved := some (ofString text) } commands = y →
        y.perform .reload = (.truth (x.config == y.config), { y with config := x.config }) := by
  refine ⟨x.config.toText, rfl, ?_, ?_⟩
  · intro content hread
    rw [Utf8.readText_eq_ok_iff.1 hread]
    exact ofFile_toText x.config
  · rintro commands y hkept rfl
    exact perform_reload (saved_after hkept)

/-- Three quotes of both kinds, a line end, a backslash and a carriage return: the settings with
    this level are saved and replaced, and they come into force again. -/
theorem save_loads_quotes : ∃ text,
    text = "[lexer]\nallow_comments = true\n\n" ++
      "[logging]\nlevel = \"\"\"\n\"\"\\\"'''\n\\\\\\r\"\"\"\n" ∧
    perform ⟨⟨true, "\"\"\"'''\n\\\r"⟩, .empty, none⟩ (.save true) =
      (.text text, ⟨⟨true, "\"\"\"'''\n\\\r"⟩, .empty, some (ofString text)⟩) ∧
    perform ⟨standard, .empty, some (ofString text)⟩ .reload =
      (.truth false, ⟨⟨true, "\"\"\"'''\n\\\r"⟩, .empty, some (ofString text)⟩) := by
  obtain ⟨text, hsave, -, hreload⟩ := save_loads ⟨⟨true, "\"\"\"'''\n\\\r"⟩, .empty, none⟩
  have htext : toText ⟨true, "\"\"\"'''\n\\\r"⟩ = "[lexer]\nallow_comments = true\n\n" ++
      "[logging]\nlevel = \"\"\"\n\"\"\\\"'''\n\\\\\\r\"\"\"\n" := by
    decide +kernel
  have hwritten : toText ⟨true, "\"\"\"'''\n\\\r"⟩ = text := Reply.text.inj (Prod.mk.inj hsave).1
  have hother : (⟨true, "\"\"\"'''\n\\\r"⟩ == standard) = false := by decide
  have hagain := hreload [.set standard] ⟨standard, .empty, some (ofString text)⟩ (by simp) rfl
  refine ⟨text, hwritten.symm.trans htext, hsave, hagain.trans ?_⟩
  rw [hother]

end Context

end SqlTokens.Config
