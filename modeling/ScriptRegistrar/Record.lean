import ScriptRegistrar.Path
import ScriptRegistrar.Signature

/-!
# What a header declares

A script class as found in a header: its message handlers and its reflected properties.
-/

namespace ScriptRegistrar

/-- Why a declaration counts as a message handler. -/
inductive DiscoveryRule where
  /-- The marker without an argument: the message has the name of the function. -/
  | marker
  /-- The marker that gives the message a name. -/
  | namedMarker
  /-- No marker, but the signature of an engine message. -/
  | signature
  deriving DecidableEq, Repr

/-- A message handler of a script class. -/
structure Message where
  /-- The name under which the engine sends the message. -/
  name : String
  /-- The member function that handles it. -/
  function : String
  /-- The types of its parameters in normal form. -/
  parameters : List String := []
  rule : DiscoveryRule := .marker
  deriving DecidableEq, Repr

/-- A reflected data member of a script class. -/
structure Property where
  name : String
  /-- The declared type in normal form. -/
  type : String
  deriving DecidableEq, Repr

/-- All that was found about one script class. -/
structure ScriptClass where
  name : String
  /-- The path of the header below the scripts directory. -/
  header : Path
  /-- Whether the class opted out of generation. -/
  excluded : Bool := false
  /-- The message handlers, no two of one function. -/
  messages : List Message := []
  /-- The properties in the order of their declarations, repeated ones included. -/
  properties : List Property := []
  deriving DecidableEq, Repr

namespace ScriptClass

/-- The header's path as an include line states it. -/
def includePath (script : ScriptClass) : String :=
  script.header.slashed

/-- Whether registrations belong into the constructor of the class. -/
def wantsInjection (script : ScriptClass) : Bool :=
  !script.excluded && !script.messages.isEmpty

end ScriptClass

end ScriptRegistrar
