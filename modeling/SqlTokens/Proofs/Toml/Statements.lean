import SqlTokens.Proofs.Toml.Quotes
import SqlTokens.Toml.Document

/-! # Documents of settings are read as they were written

    A document that is written here is a row of tables, each under a header of its own and with
    one value in it.

    * **Names** without quotes: `path_bare`.
    * **Values** at the end of a line: `denotes_writeText` for any text, `denotes_true`,
      `denotes_false`.
    * **Tables**: `addAll_writeTable` — such a table at the head of what is left of a document
      is added to what was read. -/

namespace SqlTokens.Toml

/-! ## Names -/

/-- A name without quotes: it is not empty, and no character of it has a meaning. -/
structure IsBare (name : List Char) : Prop where
  ne_nil : name ≠ []
  all : name.all isBareChar = true

section
variable {bare rest : List Char}

/-- A name starts with a character that means nothing else there. -/
theorem IsBare.exists_cons (h : IsBare bare) :
    ∃ c more, bare = c :: more ∧ isBareChar c = true := by
  obtain ⟨c, more, rfl⟩ := List.exists_cons_of_ne_nil h.ne_nil
  exact ⟨c, more, rfl, List.all_eq_true.1 h.all c List.mem_cons_self⟩

theorem ne_of_isBareChar {c d : Char} (hc : isBareChar c = true) (hd : isBareChar d = false) :
    c ≠ d := by
  rintro rfl
  rw [hc] at hd
  cases hd

theorem skipSpaces_of_isBareChar {c : Char} (h : isBareChar c = true) (rest : List Char) :
    skipSpaces (c :: rest) = c :: rest := by
  have hspace : c ≠ ' ' := ne_of_isBareChar h (by decide)
  have htab : c ≠ '\t' := ne_of_isBareChar h (by decide)
  exact List.dropWhile_cons_of_neg (by simp [isSpace, hspace, htab])

/-- A name is read up to the first character that it may not hold. -/
theorem name_bare (h : IsBare bare) (hrest : ∀ c ∈ rest.head?, isBareChar c = false) :
    name (bare ++ rest) = some (String.ofList bare, rest) := by
  have htake := takeWhile_append_eq (List.all_eq_true.1 h.all) hrest
  obtain ⟨c, more, rfl, hc⟩ := h.exists_cons
  have hline : lineText (c :: more ++ rest) = none := by
    unfold lineText
    split
    · next heq => exact absurd (List.cons.inj heq).1 (ne_of_isBareChar hc (by decide))
    · next heq => exact absurd (List.cons.inj heq).1 (ne_of_isBareChar hc (by decide))
    · rfl
  simp only [name, hline, htake, List.drop_left]

/-- A name alone is a path. -/
theorem path_bare (h : IsBare bare) (hrest : ∀ c ∈ rest.head?, isBareChar c = false)
    (hdot : (skipSpaces rest).head? ≠ some '.') :
    path (bare ++ rest) = some (([], String.ofList bare), skipSpaces rest) := by
  rw [path, pathOnto, name_bare h hrest]
  dsimp only
  split
  · next heq => exact absurd (congrArg List.head? heq) hdot
  · rfl

end

/-! ## Values -/

theorem exists_writeText (text : List Char) :
    ∃ c s, writeText text = c :: s ∧ (c = '"' ∨ c = '\x27') := by
  unfold writeText
  cases Notation.of text with
  | escaped => exact ⟨_, _, rfl, .inl rfl⟩
  | plain => exact ⟨_, _, rfl, .inr rfl⟩
  | escapedLines => exact ⟨_, _, rfl, .inl rfl⟩
  | plainLines => exact ⟨_, _, rfl, .inr rfl⟩

theorem value_of_quote {c : Char} (h : c = '"' ∨ c = '\x27') (s : List Char) :
    value (c :: s) =
      (quotedText (c :: s)).map fun read => (.string (String.ofList read.1), read.2) := by
  rcases h with rfl | rfl
  · simp [value, valueWithin]
  · simp [value, valueWithin]

/-- A value is written so, if nothing follows it on the line. -/
structure Denotes (written : List Char) (node : Node) : Prop where
  /-- No blank belongs to it, and so blanks before it can be skipped. -/
  skipSpaces_eq : ∀ rest, skipSpaces (written ++ '\n' :: rest) = written ++ '\n' :: rest
  value_eq : ∀ rest, value (written ++ '\n' :: rest) = some (node, '\n' :: rest)

theorem denotes_writeText (text : List Char) :
    Denotes (writeText text) (.string (String.ofList text)) := by
  obtain ⟨c, s, hs, hc⟩ := exists_writeText text
  constructor
  case skipSpaces_eq =>
    intro rest
    rw [hs]
    rcases hc with rfl | rfl
    · rfl
    · rfl
  case value_eq =>
    intro rest
    have hread : quotedText (writeText text ++ '\n' :: rest) = some (text, '\n' :: rest) :=
      quotedText_writeText text (by simp) (by simp)
    rw [hs, List.cons_append] at hread ⊢
    rw [value_of_quote hc, hread]
    rfl

theorem denotes_true : Denotes ['t', 'r', 'u', 'e'] (.boolean true) :=
  ⟨fun _ => rfl, fun _ => rfl⟩

theorem denotes_false : Denotes ['f', 'a', 'l', 's', 'e'] (.boolean false) :=
  ⟨fun _ => rfl, fun _ => rfl⟩

/-! ## Statements -/

section
variable {bare rest : List Char}

/-- A header with a name alone opens that table. -/
theorem statement_openTable (h : IsBare bare) :
    statement ('[' :: (bare ++ ']' :: rest)) = some (.openTable [] (String.ofList bare), rest) := by
  have hpath : path (bare ++ ']' :: rest) = some (([], String.ofList bare), ']' :: rest) :=
    path_bare h (by simp [isBareChar]) (by simp [skipSpaces, isSpace])
  obtain ⟨c, more, rfl, hc⟩ := h.exists_cons
  rw [statement]
  · rw [List.cons_append, skipSpaces_of_isBareChar hc, ← List.cons_append, hpath]
    rfl
  · intro s heq
    exact absurd (List.cons.inj heq).1 (ne_of_isBareChar hc (by decide))

/-- A value under a name alone. -/
theorem statement_define {written : List Char} {node : Node} (h : IsBare bare)
    (hdenotes : Denotes written node) :
    statement (bare ++ ' ' :: '=' :: ' ' :: (written ++ '\n' :: rest)) =
      some (.define [] (String.ofList bare) node, '\n' :: rest) := by
  have hpath : path (bare ++ ' ' :: '=' :: ' ' :: (written ++ '\n' :: rest)) =
      some (([], String.ofList bare), '=' :: ' ' :: (written ++ '\n' :: rest)) :=
    path_bare h (by simp [isBareChar]) (by simp [skipSpaces, isSpace])
  have hequals : skipSpaces ('=' :: ' ' :: (written ++ '\n' :: rest)) =
      '=' :: ' ' :: (written ++ '\n' :: rest) := rfl
  have hblank : skipSpaces (' ' :: (written ++ '\n' :: rest)) = written ++ '\n' :: rest :=
    hdenotes.skipSpaces_eq rest
  have hread : assignment (some ∘ skipSpaces) value
      (bare ++ ' ' :: '=' :: ' ' :: (written ++ '\n' :: rest)) =
        some ((([], String.ofList bare), node), '\n' :: rest) := by
    simp only [assignment, hpath, Option.bind_eq_bind, Option.bind_some, Function.comp_apply,
      hequals, hblank, hdenotes.value_eq]
    rfl
  obtain ⟨c, more, rfl, hc⟩ := h.exists_cons
  have hbracket : c ≠ '[' := ne_of_isBareChar hc (by decide)
  rw [statement, hread]
  · rfl
  · exact fun s heq => absurd (List.cons.inj heq).1 hbracket
  · exact fun s heq => absurd (List.cons.inj heq).1 hbracket

end

/-! ## Documents -/

/-- Empty lines have no meaning. -/
theorem skipLines_replicate (n : Nat) (s : List Char) :
    skipLines false (List.replicate n '\n' ++ s) = skipLines false s := by
  induction n with
  | zero => rfl
  | succ n ih =>
    rw [List.replicate_succ, List.cons_append, ← ih]
    simp [skipLines]

theorem skipLines_of_isBareChar {c : Char} (h : isBareChar c = true) (rest : List Char) :
    skipLines false (c :: rest) = some (c :: rest) := by
  have hspace : c ≠ ' ' := ne_of_isBareChar h (by decide)
  have htab : c ≠ '\t' := ne_of_isBareChar h (by decide)
  have hline : c ≠ '\n' := ne_of_isBareChar h (by decide)
  have hreturn : c ≠ '\r' := ne_of_isBareChar h (by decide)
  have hcomment : c ≠ '#' := ne_of_isBareChar h (by decide)
  simp [skipLines, isSpace, hspace, htab, hline, hreturn, hcomment]

/-- A statement on the next line that is not empty is added to the document. -/
theorem addAll_of_statement {draft draft' : Draft} {s more rest : List Char} {c : Char}
    {next : Statement} (hskip : skipLines false s = some (c :: more))
    (hstatement : statement (c :: more) = some (next, '\n' :: rest))
    (hadd : draft.add next = some draft') (hlt : rest.length < s.length) :
    addAll draft s = addAll draft' rest := by
  have hend : endLine? ('\n' :: rest) = some rest := rfl
  rw [addAll]
  simp only [hskip, hstatement, hadd, hend, hlt, if_true]

namespace Entries

theorem find?_put (entries : Entries) (name : String) (node : Node) :
    (entries.put name node).find? name = some node := by
  induction entries with
  | nil => simp [put, find?]
  | cons entry more ih =>
    by_cases hname : entry.1 = name
    · simp [put, find?, hname]
    · simpa [put, find?, hname] using ih

theorem put_put (entries : Entries) (name : String) (node node' : Node) :
    (entries.put name node).put name node' = entries.put name node' := by
  induction entries with
  | nil => simp [put]
  | cons entry more ih =>
    by_cases hname : entry.1 = name
    · simp [put, hname]
    · simpa [put, hname] using ih

end Entries

section
variable {draft : Draft} {table name : String} {node : Node}

theorem add_openTable (hnew : draft.root.find? table = none) :
    draft.add (.openTable [] table) =
      some ⟨[table], draft.root.put table (.table .header [])⟩ := by
  simp [Draft.add, Entries.openTable, Entries.update, hnew]

/-- The first value goes to the table that was opened right before. -/
theorem add_define (root : Entries) :
    Draft.add ⟨[table], root.put table (.table .header [])⟩ (.define [] name node) =
      some ⟨[table], root.put table (.table .header [(name, node)])⟩ := by
  have hdefine : Entries.define [] name node [] = some [(name, node)] := rfl
  simp [Draft.add, Entries.update, Entries.find?_put, Entries.put_put, hdefine]

end

/-- A table of one value, as it is written: a header, and the value under its name. -/
def writeTable (table name : String) (written : List Char) : List Char :=
  '[' :: (table.toList ++ ']' :: '\n' :: (name.toList ++ ' ' :: '=' :: ' ' :: (written ++ ['\n'])))

/-- **Tables**: a table of one value, behind empty lines, is added to a document that has none
    of its name. -/
theorem addAll_writeTable {draft : Draft} {table name : String} {written : List Char} {node : Node}
    (htable : IsBare table.toList) (hname : IsBare name.toList) (hdenotes : Denotes written node)
    (hnew : draft.root.find? table = none) (n : Nat) (rest : List Char) :
    addAll draft (List.replicate n '\n' ++ (writeTable table name written ++ rest)) =
      addAll ⟨[table], draft.root.put table (.table .header [(name, node)])⟩ rest := by
  have hwritten : writeTable table name written ++ rest = '[' :: (table.toList ++ ']' :: '\n' ::
      (name.toList ++ ' ' :: '=' :: ' ' :: (written ++ '\n' :: rest))) := by
    simp [writeTable]
  have hheader :
      skipLines false (List.replicate n '\n' ++ (writeTable table name written ++ rest)) =
        some ('[' :: (table.toList ++ ']' :: '\n' ::
          (name.toList ++ ' ' :: '=' :: ' ' :: (written ++ '\n' :: rest)))) := by
    rw [skipLines_replicate, hwritten]
    rfl
  have hopen : draft.add (.openTable [] (String.ofList table.toList)) =
      some ⟨[table], draft.root.put table (.table .header [])⟩ := by
    rw [String.ofList_toList]
    exact add_openTable hnew
  have hdefine : Draft.add ⟨[table], draft.root.put table (.table .header [])⟩
      (.define [] (String.ofList name.toList) node) =
        some ⟨[table], draft.root.put table (.table .header [(name, node)])⟩ := by
    rw [String.ofList_toList]
    exact add_define draft.root
  calc addAll draft (List.replicate n '\n' ++ (writeTable table name written ++ rest))
    _ = addAll ⟨[table], draft.root.put table (.table .header [])⟩
          (name.toList ++ ' ' :: '=' :: ' ' :: (written ++ '\n' :: rest)) := by
      refine addAll_of_statement hheader (statement_openTable htable) hopen ?_
      simp only [hwritten, List.length_append, List.length_cons]
      omega
    _ = addAll ⟨[table], draft.root.put table (.table .header [(name, node)])⟩ rest := by
      have hstatement : statement (name.toList ++ ' ' :: '=' :: ' ' :: (written ++ '\n' :: rest)) =
          some (.define [] (String.ofList name.toList) node, '\n' :: rest) :=
        statement_define hname hdenotes
      obtain ⟨c, more, hc, hbare⟩ := hname.exists_cons
      rw [hc, List.cons_append] at hstatement ⊢
      refine addAll_of_statement (skipLines_of_isBareChar hbare _) hstatement ?_ ?_
      · rw [← hc]
        exact hdefine
      · simp only [List.length_append, List.length_cons]
        omega

end SqlTokens.Toml
