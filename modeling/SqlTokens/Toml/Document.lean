import SqlTokens.Toml.Value

/-! # Documents

    A document is a row of statements, each on a line of its own: headers, and
    values under a path that starts at the table of the last header. -/

namespace SqlTokens.Toml

/-- A statement of a document. -/
inductive Statement where
  /-- The header `[a.b]`. -/
  | openTable (path : List String) (name : String)
  /-- The header `[[a.b]]`. -/
  | openElement (path : List String) (name : String)
  /-- The entry `a.b = 1`. -/
  | define (path : List String) (name : String) (node : Node)

/-- A document up to some statement. -/
structure Draft where
  /-- The path of the table that values go to. -/
  place : List String
  /-- All that was read, from the root. -/
  root : Entries

namespace Draft

/-- Nothing was read, and values go to the root. -/
def empty : Draft :=
  ⟨[], []⟩

/-- The document with one more statement, if it may stand there. -/
def add (draft : Draft) : Statement → Option Draft
  | .openTable path name => do
    return ⟨path ++ [name], ← draft.root.openTable path name⟩
  | .openElement path name => do
    return ⟨path ++ [name], ← draft.root.openElement path name⟩
  | .define path name node => do
    let define := fun _ (target : Entries) => target.define path name node
    return ⟨draft.place, ← draft.root.update false define draft.place .header⟩

end Draft

/-- The statement at the head, without the end of its line. -/
def statement : Reader Statement
  | '[' :: '[' :: s =>
    match path (skipSpaces s) with
    | some ((path, name), ']' :: ']' :: rest) => some (.openElement path name, rest)
    | _ => none
  | '[' :: s =>
    match path (skipSpaces s) with
    | some ((path, name), ']' :: rest) => some (.openTable path name, rest)
    | _ => none
  | s => (assignment (some ∘ skipSpaces) value s).map fun (((path, name), node), rest) =>
    (.define path name node, rest)

/-- Adds the statements of a text to a document. -/
def addAll (draft : Draft) (s : List Char) : Option Draft :=
  match skipLines false s with
  | none => none
  | some [] => some draft
  | some s' =>
    match statement s' with
    | none => none
    | some (statement, rest) =>
      match draft.add statement, endLine? rest with
      | some draft, some rest =>
        if rest.length < s.length then addAll draft rest else none
      | _, _ => none
termination_by s.length

/-- The text without the mark of its byte order. -/
def withoutMark : List Char → List Char
  | '\ufeff' :: rest => rest
  | s => s

/-- The root table of the document that a text writes. -/
def read? (s : List Char) : Option Entries :=
  (addAll .empty (withoutMark s)).map Draft.root

end SqlTokens.Toml
