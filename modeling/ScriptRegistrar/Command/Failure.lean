import ScriptRegistrar.Generator.Run

/-!
# Failures of a command

A failed command prints what it was doing and then the causes, the nearest first.
-/

namespace ScriptRegistrar.Command

inductive Failure where
  /-- A configuration file that was asked for cannot be used. -/
  | loadConfig (path : String) (cause : ConfigFailure)
  /-- The configuration file of a project cannot be used. -/
  | loadProjectConfig (project : Path) (cause : ConfigFailure)
  /-- The settings of a run cannot be used. -/
  | invalidConfiguration (cause : ConfigFailure)
  /-- The settings of a checked file cannot be used. -/
  | invalidConfig (path : String) (cause : ConfigFailure)
  /-- There is no configuration, and nothing more to say about it. -/
  | config (cause : ConfigFailure)
  /-- The run failed. -/
  | generate (cause : GenerationFailure)
  deriving DecidableEq, Repr

/-- The messages of a configuration failure and of what caused it. -/
def configChain (failure : ConfigFailure) : List String :=
  failure.message ::
    match failure with
    | .unreadable _ cause => [cause.message]
    | .unparsable => [ConfigFailure.documentMessage]
    | .invalid _ => []

/-- The messages of a failed run and of what caused it. -/
def generationChain (failure : GenerationFailure) : List String :=
  match failure with
  | .aggregateWrite _ cause => [failure.message, cause.message]
  | .config cause => configChain cause
  | .sourceExtension _ => [failure.message]

namespace Failure

def context : Failure → String
  | .loadConfig path _ => "Failed to load config: " ++ path
  | .loadProjectConfig project _ => "Failed to load config from project: " ++ project.text
  | .invalidConfiguration _ => "Invalid configuration"
  | .invalidConfig path _ => "Invalid config: " ++ path
  | .config cause => cause.message
  | .generate _ => "Failed to generate registration code"

/-- The causes, the nearest first. -/
def causes : Failure → List String
  | .loadConfig _ cause | .loadProjectConfig _ cause | .invalidConfiguration cause
  | .invalidConfig _ cause => configChain cause
  | .config cause => (configChain cause).drop 1
  | .generate cause => generationChain cause

/-- A text whose first line follows `lead` and whose other lines follow `margin`. -/
def indented (lead margin text : String) : String :=
  lead ++ ("\n" ++ margin).intercalate ((text.splitOn "\n"))

/-- The lines of the causes, with numbers if there are several. -/
def causeLines (causes : List String) : List String :=
  match causes with
  | [only] => [indented "    " "    " only]
  | _ => causes.mapIdx fun index cause =>
    indented ("    " ++ toString index ++ ": ") "       " cause

def render (failure : Failure) : String :=
  "Error: " ++ failure.context ++
    (if failure.causes.isEmpty then ""
      else "\n\nCaused by:\n" ++ "\n".intercalate (causeLines failure.causes)) ++ "\n"

end Failure

end ScriptRegistrar.Command
