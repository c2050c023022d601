import ScriptRegistrar.Path
import ScriptRegistrar.Signature

/-!
# Configuration of a project

All that a project can set.  Every setting has a default, so that a project without a
configuration file is complete.
-/

namespace ScriptRegistrar

/-- The tokens that mark the members of a class. -/
structure Markers where
  /-- Marks a message handler. -/
  message : String := "SCRIPT_MESSAGE"
  /-- Marks a message handler and names its message. -/
  namedMessage : String := "SCRIPT_MESSAGE_NAMED"
  /-- Marks a property. -/
  property : String := "SCRIPT_PROPERTY"
  /-- Keeps a class out of generation. -/
  suppress : String := "SCRIPT_NO_AUTOGEN"
  deriving DecidableEq, Repr

/-- The names that registration code is made of. -/
structure RegistrationNames where
  /-- The macro that opens the registration block. -/
  block : String := "RTTR_REGISTRATION"
  /-- The function that a constructor calls for each message. -/
  statement : String := "RegisterMessage"
  /-- The template of the handle that is registered for each class. -/
  handleType : String := "ScriptHandle"
  /-- The method of the handle that is registered. -/
  injectMethod : String := "Inject"
  /-- What the first include lines name. -/
  includes : List String := ["<rttr/registration>", "\"Scripting/ScriptBehaviour.h\"",
    "\"Scripting/ScriptHandle.h\""]
  deriving DecidableEq, Repr

structure Config where
  /-- The directory of the scripts, below the project's root. -/
  scriptsDirectory : String := "Scripts"
  /-- The file name of the aggregate, which is written at the scripts root. -/
  generatedFile : String := "ScriptRegistration.gen.cpp"
  /-- The class that all script classes derive from. -/
  baseClass : String := "ScriptBehaviour"
  /-- The extensions of headers. -/
  headerExtensions : List String := ["h", "hpp", "hh", "hxx"]
  /-- The extension of the file beside a header in which a class may be registered by hand. -/
  sourceExtension : String := "cpp"
  markers : Markers := {}
  registration : RegistrationNames := {}
  /-- Messages of the project, besides those of the engine. -/
  signatures : List Signature := []
  deriving DecidableEq, Repr

namespace Config

/-- The name of a configuration file in the root of a project. -/
def fileName : String :=
  "scriptbind.toml"

def signatureTable (config : Config) : SignatureTable :=
  SignatureTable.engineDefault.append config.signatures

/-- Whether two texts differ at most in the case of ASCII letters. -/
def agreesUpToCase (left right : List Char) : Bool :=
  left.map Char.toLower = right.map Char.toLower

/-- Whether files with an extension are headers.  Dots in front of a configured extension and the
case of ASCII letters do not matter. -/
def isHeaderExtension (config : Config) (extension : List Char) : Bool :=
  config.headerExtensions.any fun configured =>
    agreesUpToCase (configured.toList.dropWhile (· = '.')) extension

def scriptsRoot (config : Config) (project : Path) : Path :=
  project.join ⟨config.scriptsDirectory⟩

end Config

end ScriptRegistrar
