import SqlTokens.Error
import SqlTokens.Text.Utf8

/-! # Files

    What the program sees of a file system: the content of each file under its
    path. -/

namespace SqlTokens

/-- The content of the file at each path, if there is one. -/
abbrev Files : Type := String → Option Bytes

/-- The content of a file as text. -/
def readText (content : Option Bytes) : Except IoFault String :=
  match content with
  | none => .error .notFound
  | some bytes =>
    match Utf8.toString? bytes with
    | none => .error .notText
    | some text => .ok text

end SqlTokens
