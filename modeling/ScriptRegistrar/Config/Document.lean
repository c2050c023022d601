import ScriptRegistrar.Config.Validation
import ScriptRegistrar.Toml.Document
import ScriptRegistrar.Toml.Settings

/-!
# Reading a configuration document

Every setting may be left out but the name of a signature, and keys that mean nothing are passed
over.
-/

namespace ScriptRegistrar

open Toml.Value

def Markers.ofValue? (value : Toml.Value) : Option Markers := do
  let default : Markers := {}
  match ← value.settings? ["message", "named_message", "property", "suppress"] with
  | [message, named, property, suppress] =>
    some {
      message := ← orDefault default.message string? message
      namedMessage := ← orDefault default.namedMessage string? named
      property := ← orDefault default.property string? property
      suppress := ← orDefault default.suppress string? suppress }
  | _ => none

def RegistrationNames.ofValue? (value : Toml.Value) : Option RegistrationNames := do
  let default : RegistrationNames := {}
  match ← value.settings? ["block", "statement", "handle_type", "inject_method", "includes"] with
  | [block, statement, handleType, injectMethod, includes] =>
    some {
      block := ← orDefault default.block string? block
      statement := ← orDefault default.statement string? statement
      handleType := ← orDefault default.handleType string? handleType
      injectMethod := ← orDefault default.injectMethod string? injectMethod
      includes := ← orDefault default.includes (list? string?) includes }
  | _ => none

/-- A signature in a document.  Its name may not be left out. -/
def Signature.ofValue? (value : Toml.Value) : Option Signature := do
  match ← value.settings? ["name", "params"] with
  | [some name, parameters] =>
    some ⟨← string? name, ← orDefault [] (list? string?) parameters⟩
  | _ => none

namespace Config

/-- The configuration in the root table of a document. -/
def ofEntries? (entries : Toml.Entries) : Option Config := do
  let default : Config := {}
  let keys := ["scripts_dir", "generated_file", "base_class", "header_extensions",
    "source_extension", "markers", "registration", "signatures"]
  match ← settings? keys (.table .opened entries) with
  | [scriptsDirectory, generatedFile, baseClass, headerExtensions, sourceExtension, markers,
      registration, signatures] =>
    some {
      scriptsDirectory := ← orDefault default.scriptsDirectory string? scriptsDirectory
      generatedFile := ← orDefault default.generatedFile string? generatedFile
      baseClass := ← orDefault default.baseClass string? baseClass
      headerExtensions := ← orDefault default.headerExtensions (list? string?) headerExtensions
      sourceExtension := ← orDefault default.sourceExtension string? sourceExtension
      markers := ← orDefault {} Markers.ofValue? markers
      registration := ← orDefault {} RegistrationNames.ofValue? registration
      signatures := ← orDefault [] (list? Signature.ofValue?) signatures }
  | _ => none

/-- Reads a configuration document. -/
def parse (text : String) : Except ConfigFailure Config :=
  match (Toml.parse? text).bind ofEntries? with
  | some config => .ok config
  | none => .error .unparsable

end Config

end ScriptRegistrar
