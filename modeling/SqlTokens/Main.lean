import SqlTokens.CommandLine.Arguments
import SqlTokens.CommandLine.Execution

/-! # The program

    Reads the files that the command line names and the two variables of the
    environment, and carries the command out.  Everything that is decided is
    decided elsewhere. -/

namespace SqlTokens

/-- The paths that an invocation reads from. -/
def Invocation.paths (i : Invocation) : List String :=
  i.config.toList ++ match i.command with
    | .tokenize _ file _ _ => file.toList
    | _ => []

/-- The content of a file, if it can be read. -/
def readContent (path : String) : IO (Option Bytes) :=
  try return some (← IO.FS.readBinFile path).toList
  catch _ => return none

/-- The files at these paths. -/
def readFiles (paths : List String) : IO Files := do
  let contents ← paths.mapM fun path => return (path, ← readContent path)
  return fun path => (contents.lookup path).join

/-- The environment of the program. -/
def readEnvironment : IO Environment := do
  let allowComments ← IO.getEnv Environment.allowCommentsName
  let level ← IO.getEnv Environment.levelName
  return ⟨allowComments.map Utf8.ofString, level.map Utf8.ofString⟩

/-- Carries out an invocation and gives the exit code. -/
def Invocation.run (i : Invocation) : IO UInt32 := do
  let files ← readFiles i.paths
  match i.settings files (← readEnvironment) with
  | .error e =>
    IO.eprintln e.message
    return 1
  | .ok config =>
    let (out, outcome) := i.command.execute config files .accepting
    IO.print out
    match outcome with
    | .error e =>
      IO.eprintln e.message
      return 1
    | .ok _ => return 0

end SqlTokens

open SqlTokens in
def main (args : List String) : IO UInt32 := do
  match Invocation.ofArguments args with
  | .ok i => i.run
  | .error .version =>
    IO.print versionLine
    return 0
  | .error .help =>
    IO.println "usage: shardsql [OPTIONS] tokenize|placeholders|keywords"
    return 0
  | .error _ =>
    IO.eprintln "usage: shardsql [OPTIONS] tokenize|placeholders|keywords"
    return 2
