/-! # Errors

    What a consumer of the library can be told: which part of the work failed,
    and why.  The cause is kept; `Error.message` words it. -/

namespace SqlTokens

/-- Why a file could not be read or written, or a sink could not be written. -/
inductive IoFault where
  /-- There is no such file or directory. -/
  | notFound
  /-- The content is no UTF-8 text. -/
  | notText
  /-- The sink takes nothing any more. -/
  | sinkClosed
  /-- Another cause, in the words of whoever met it. -/
  | other (message : String)
  deriving DecidableEq

def IoFault.message : IoFault → String
  | .notFound => "No such file or directory (os error 2)"
  | .notText => "stream did not contain valid UTF-8"
  | .sinkClosed => "sink is closed"
  | .other message => message

/-- Why arguments could not be bound to a statement. -/
inductive BindingFault where
  /-- Their number differs from that of the placeholders. -/
  | arity (expected given : Nat)
  /-- Another cause, in the words of whoever met it. -/
  | other (message : String)
  deriving DecidableEq

def BindingFault.message : BindingFault → String
  | .arity expected given =>
    "statement expects " ++ toString expected ++ " arguments, got " ++ toString given
  | .other message => message

/-- What is wrong with a configuration or with the way the program was called. -/
inductive ConfigurationFault where
  /-- The file holds no configuration. -/
  | malformedFile
  /-- A variable that switches something on or off has neither meaning. -/
  | unknownSwitch (variableName value : String)
  /-- There is no such log level. -/
  | unknownLevel (level : String)
  /-- Neither a statement nor a file to take it from was given. -/
  | noStatement
  /-- Another cause, in the words of whoever met it. -/
  | other (message : String)
  deriving DecidableEq

def ConfigurationFault.message : ConfigurationFault → String
  | .malformedFile => "the file is not a configuration"
  | .unknownSwitch variableName value => "invalid " ++ variableName ++ " value: " ++ value
  | .unknownLevel level => "unknown log level '" ++ level ++ "'"
  | .noStatement => "either SQL text or --file is required"
  | .other message => message

/-- An error of the library. -/
inductive Error where
  /-- Reading or writing failed. -/
  | io (fault : IoFault)
  /-- Writing failed while a document was being printed. -/
  | serialization (fault : IoFault)
  /-- A statement was refused. -/
  | sqlParsing (message : String)
  | binding (fault : BindingFault)
  | configuration (fault : ConfigurationFault)
  deriving DecidableEq

/-- The text of an error: which part of the work failed, and why. -/
def Error.message : Error → String
  | .io fault => "I/O error: " ++ fault.message
  | .serialization fault => "Serialization error: " ++ fault.message
  | .sqlParsing message => "SQL parsing error: " ++ message
  | .binding fault => "Binding error: " ++ fault.message
  | .configuration fault => "Configuration error: " ++ fault.message

end SqlTokens
