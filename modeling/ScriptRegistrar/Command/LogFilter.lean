import ScriptRegistrar.Text.Blank

/-!
# Choosing a log filter

Which messages are logged is decided by the option of the command line, by the environment if
the option says nothing, and else by a default.
-/

namespace ScriptRegistrar.LogFilter

def default : String :=
  "info"

/-- A directive without the blanks around it, if anything is left. -/
def given? (directive : Option String) : Option String :=
  (directive.map Text.trimmed).filter (!·.isEmpty)

def directive (option environment : Option String) : String :=
  (given? option <|> given? environment).getD default

end ScriptRegistrar.LogFilter
