import SqlTokens.Toml.Number

/-! # Documents of settings

    A document in the TOML format is a table of named values.  How a table came
    to be decides who may still add to it:

    * **A header** `[a]` opens a table once; it may take over one that was only
      passed through on the way to another.
    * **A dotted key** `a.b = 1` opens tables that other dotted keys of the same
      section may add to.
    * **An inline table** `a = {b = 1}` is complete as it stands.

    `Entries.update` finds the table at the end of a path under these rules.

    Of a number only the form is checked when a document is read; `Node.isValued`
    says whether all numbers in a value have one themselves. -/

namespace SqlTokens.Toml

/-- How a table came to be. -/
inductive Origin where
  /-- It was opened by a header of its own, or it is the whole document. -/
  | header
  /-- It was passed through on the way to the table of a header. -/
  | implied
  /-- It was passed through by a dotted key. -/
  | dotted
  /-- It was written as a value. -/
  | inline
  deriving DecidableEq

/-- A value of a document.  Points in time are only told apart from all else; no
    setting has such a value. -/
inductive Node where
  | string (text : String)
  | boolean (value : Bool)
  | number (n : Number)
  | moment
  | array (items : List Node)
  | table (origin : Origin) (entries : List (String × Node))
  /-- The tables that were opened one by one under the same header. -/
  | tables (elements : List (List (String × Node)))

mutual

/-- Whether every number in a value has a value of its own. -/
def Node.isValued : Node → Bool
  | .string _ => true
  | .boolean _ => true
  | .number n => n.hasValue
  | .moment => true
  | .array items => itemsAreValued items
  | .table _ entries => entriesAreValued entries
  | .tables elements => elementsAreValued elements

/-- Whether every number in the items of an array has a value. -/
def itemsAreValued : List Node → Bool
  | [] => true
  | item :: more => item.isValued && itemsAreValued more

/-- Whether every number under the names of a table has a value. -/
def entriesAreValued : List (String × Node) → Bool
  | [] => true
  | (_, node) :: more => node.isValued && entriesAreValued more

/-- Whether every number in tables under the same header has a value. -/
def elementsAreValued : List (List (String × Node)) → Bool
  | [] => true
  | entries :: more => entriesAreValued entries && elementsAreValued more

end

/-- The values of a table under their names, in the order of the document. -/
abbrev Entries : Type := List (String × Node)

namespace Entries

/-- The value under a name. -/
def find? (entries : Entries) (name : String) : Option Node :=
  (List.find? (fun entry => entry.1 == name) entries).map Prod.snd

/-- The entries with `node` under a name, in the place of what was there. -/
def put (entries : Entries) (name : String) (node : Node) : Entries :=
  match entries with
  | [] => [(name, node)]
  | entry :: more => if entry.1 == name then (name, node) :: more else entry :: put more name node

/-- Changes the table at the end of a path, which starts at a table of the given
    origin.  Tables that are missing on the way are made; a table that the path
    may not enter makes the document ill-formed. -/
def update (isDotted : Bool) (change : Origin → Entries → Option Entries) :
    List String → Origin → Entries → Option Entries
  | [], origin, entries => change origin entries
  | name :: path, _, entries =>
    match entries.find? name with
    | none => do
      let origin := if isDotted then .dotted else .implied
      let child ← update isDotted change path origin []
      return entries.put name (.table origin child)
    | some (.table origin child) =>
      if origin == .inline || (isDotted && origin == .header) then none
      else do
        let child ← update isDotted change path origin child
        return entries.put name (.table origin child)
    | some (.tables elements) =>
      match elements.getLast? with
      | none => none
      | some last => do
        let last ← update isDotted change path .header last
        return entries.put name (.tables (elements.dropLast ++ [last]))
    | some _ => none

/-- Adds a value under a path of names whose last one must be new. -/
def define (path : List String) (name : String) (node : Node) (entries : Entries) :
    Option Entries :=
  update true (fun origin target =>
    if (origin == .dotted) == path.isEmpty then none
    else match target.find? name with
      | some _ => none
      | none => some (target.put name node)) path .header entries

/-- Opens the table of a header. -/
def openTable (path : List String) (name : String) (entries : Entries) : Option Entries :=
  update false (fun _ target =>
    match target.find? name with
    | none => some (target.put name (.table .header []))
    | some (.table .implied child) => some (target.put name (.table .header child))
    | some _ => none) path .header entries

/-- Opens one more of the tables under a header. -/
def openElement (path : List String) (name : String) (entries : Entries) : Option Entries :=
  update false (fun _ target =>
    match target.find? name with
    | none => some (target.put name (.tables [[]]))
    | some (.tables elements) => some (target.put name (.tables (elements ++ [[]])))
    | some _ => none) path .header entries

end Entries

end SqlTokens.Toml
