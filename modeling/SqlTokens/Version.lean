/-! # Name and version of the program -/

namespace SqlTokens

/-- The name under which the program is called. -/
def programName : String := "shardsql"

/-- The version of the program and of its library. -/
def version : String := "0.1.0"

end SqlTokens
