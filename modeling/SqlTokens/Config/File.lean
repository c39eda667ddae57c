import SqlTokens.Config.Basic
import SqlTokens.File
import SqlTokens.Toml.Document
import SqlTokens.Toml.Notation

/-! # Settings in a file

    The file is a TOML document with a table for the lexer and one for the log.
    What is missing is standard, what is unknown is passed over, and a setting of
    the wrong type makes the whole file ill-formed.  A table may also be written
    as an array, which gives its settings in order.

    A number without a value makes the file ill-formed too, even under an unknown
    name; only behind the last setting of an array nothing looks at it. -/

namespace SqlTokens.Config

open Toml (Node Entries)

/-! ## Writing -/

/-- The truth values as they are written. -/
def writeBool (b : Bool) : String :=
  if b then "true" else "false"

/-- The file that holds these settings. -/
def toText (c : Config) : String :=
  "[lexer]\nallow_comments = " ++ writeBool c.allowComments ++ "\n\n[logging]\nlevel = "
    ++ String.ofList (Toml.writeText c.level.toList) ++ "\n"

/-! ## Reading -/

/-- The only setting of a table, if it has it: by name, or as the first of an
    array.  A point in time is a table without settings; other values are none. -/
def setting? (name : String) : Node → Option (Option Node)
  | .table _ entries => some (Entries.find? entries name)
  | .array items => some items.head?
  | .tables elements => some (elements.head?.map (Node.table .header))
  | .moment => some none
  | _ => none

/-- The value of the setting `name` in table `table`, as `read` understands it, or
    the standard one. -/
def read? {α : Type} (table name : String) (standard : α) (read : Node → Option α)
    (root : Entries) : Option α :=
  match root.find? table with
  | none => some standard
  | some node =>
    match setting? name node with
    | none => none
    | some none => some standard
    | some (some value) => read value

/-- What is looked at of the value under a name of the root: of an array in the
    place of a table of settings, its first item. -/
def lookedAt (name : String) : Node → Node
  | .array items =>
    .array (if name == "lexer" || name == "logging" then items.take 1 else items)
  | node => node

/-- Whether every number that is looked at has a value. -/
def isReadable (root : Entries) : Bool :=
  root.all fun (name, node) => (lookedAt name node).isValued

def bool? : Node → Option Bool
  | .boolean b => some b
  | _ => none

def string? : Node → Option String
  | .string s => some s
  | _ => none

/-- The settings that a text holds. -/
def ofText? (text : String) : Option Config := do
  let root ← Toml.read? text.toList
  let allowComments ← read? "lexer" "allow_comments" standard.allowComments bool? root
  let level ← read? "logging" "level" standard.level string? root
  if isReadable root then return ⟨allowComments, level⟩ else none

/-- The settings in a file, which has this content if it exists. -/
def ofFile (content : Option Bytes) : Except Error Config :=
  match readText content with
  | .error fault => .error (.io fault)
  | .ok text =>
    match ofText? text with
    | none => .error (.configuration .malformedFile)
    | some c => .ok c

end SqlTokens.Config
