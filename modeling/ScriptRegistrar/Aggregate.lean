import ScriptRegistrar.Config
import ScriptRegistrar.Record
import ScriptRegistrar.Text.Search

/-!
# The aggregate file

One file registers every script class with the reflection runtime.  It names the headers, each
once, and then holds a block for each class that did not opt out: its property chain, unless the
class is registered by hand, and its handle.  The order is that of the records.
-/

namespace ScriptRegistrar.Aggregate

/-- The comment at the head of the file. -/
def banner : String :=
  "// Auto-generated by scriptbind generate\n" ++
    "// DO NOT EDIT - regenerate with: scriptbind generate\n\n"

/-- The include line of what `target` names, quotation marks or angle brackets included. -/
def includeLine (target : String) : String :=
  "#include " ++ target ++ "\n"

def includePaths (scripts : List ScriptClass) : List String :=
  Text.keepFirst id (scripts.map ScriptClass.includePath)

def propertyCall (className : String) (property : Property) : String :=
  "\n        .property(\"" ++ property.name ++ "\", &" ++ className ++ "::" ++ property.name ++
    ")(metadata(\"type\", \"" ++ property.type ++ "\"))"

def propertyChain (script : ScriptClass) : String :=
  "\n    registration::class_<" ++ script.name ++ ">(\"" ++ script.name ++ "\")" ++
    String.join (script.properties.map (propertyCall script.name)) ++ ";\n"

def handle (names : RegistrationNames) (script : ScriptClass) : String :=
  let handle := names.handleType ++ "<" ++ script.name ++ ">"
  "\n    registration::class_<" ++ handle ++ ">(\"" ++ handle ++ "\")\n" ++
    "        .constructor<>()(policy::ctor::as_object)\n" ++
    "        .method(\"" ++ names.injectMethod ++ "\", &" ++ handle ++ "::" ++
    names.injectMethod ++ ");\n"

def classBlock (names : RegistrationNames) (byHand : ScriptClass → Bool) (script : ScriptClass) :
    String :=
  (if byHand script then "" else propertyChain script) ++ handle names script

/-- The text of the aggregate file.  Classes that opted out leave no trace in it. -/
def render (names : RegistrationNames) (byHand : ScriptClass → Bool)
    (scripts : List ScriptClass) : String :=
  let included := scripts.filter (!·.excluded)
  banner ++ String.join (names.includes.map includeLine) ++
    String.join ((includePaths included).map (fun path => includeLine ("\"" ++ path ++ "\""))) ++
    "\n" ++ names.block ++ "\n\x7b\n    using namespace rttr;\n" ++
    String.join (included.map (classBlock names byHand)) ++ "\x7d\n"

end ScriptRegistrar.Aggregate
