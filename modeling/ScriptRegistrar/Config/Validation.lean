import ScriptRegistrar.Config
import ScriptRegistrar.FileTree.Failure

/-!
# Validating a configuration

A configuration is usable if its names are identifiers, its two message markers differ, and its
directory, its file name and its list of extensions say something.  The first complaint in this
order is reported.
-/

namespace ScriptRegistrar

open Text

inductive ConfigComplaint where
  | notIdentifier (key value : String)
  | equalMarkers
  | emptyScriptsDirectory
  | notPlainFileName (value : String)
  | noHeaderExtensions
  | signatureNotIdentifier (name : String)
  deriving DecidableEq, Repr

def ConfigComplaint.message : ConfigComplaint → String
  | .notIdentifier key value => key ++ " must be an identifier, got '" ++ value ++ "'"
  | .equalMarkers => "markers.message and markers.named_message must differ"
  | .emptyScriptsDirectory => "scripts_dir cannot be empty"
  | .notPlainFileName value => "generated_file must be a plain file name, got '" ++ value ++ "'"
  | .noHeaderExtensions => "header_extensions cannot be empty"
  | .signatureNotIdentifier name => "signature name must be an identifier, got '" ++ name ++ "'"

inductive ConfigFailure where
  /-- The file cannot be read. -/
  | unreadable (path : Path) (cause : FileFailure)
  /-- The file is no configuration document. -/
  | unparsable
  /-- The settings cannot be used. -/
  | invalid (complaint : ConfigComplaint)
  deriving DecidableEq, Repr

def ConfigFailure.documentMessage : String :=
  "TOML parse error"

def ConfigFailure.message : ConfigFailure → String
  | .unreadable path cause => "failed to read config " ++ path.text ++ ": " ++ cause.message
  | .unparsable => "failed to parse config: " ++ documentMessage
  | .invalid complaint => "invalid config: " ++ complaint.message

namespace Config

def identifiers (config : Config) : List (String × String) :=
  [("base_class", config.baseClass),
    ("markers.message", config.markers.message),
    ("markers.named_message", config.markers.namedMessage),
    ("markers.property", config.markers.property),
    ("markers.suppress", config.markers.suppress),
    ("registration.block", config.registration.block),
    ("registration.statement", config.registration.statement),
    ("registration.handle_type", config.registration.handleType),
    ("registration.inject_method", config.registration.injectMethod)]

/-- Whether a file name holds more than blanks and stays in its directory. -/
def isPlainFileName (name : String) : Bool :=
  !(trim name.toList).isEmpty && !name.toList.contains '/' && !name.toList.contains '\\'

/-- The first complaint about a configuration. -/
def complaint? (config : Config) : Option ConfigComplaint :=
  match config.identifiers.find? (fun setting => !isIdentifier setting.2.toList) with
  | some (key, value) => some (.notIdentifier key value)
  | none =>
    if config.markers.message = config.markers.namedMessage then some .equalMarkers
    else if (trim config.scriptsDirectory.toList).isEmpty then some .emptyScriptsDirectory
    else if !isPlainFileName config.generatedFile then
      some (.notPlainFileName config.generatedFile)
    else if config.headerExtensions.isEmpty then some .noHeaderExtensions
    else
      (config.signatures.find? (fun signature => !isIdentifier signature.name.toList)).map
        (fun signature => .signatureNotIdentifier signature.name)

def validate (config : Config) : Except ConfigFailure Unit :=
  match config.complaint? with
  | some complaint => .error (.invalid complaint)
  | none => .ok ()

/-- A configuration that there is nothing to complain about has identifiers where they are due. -/
theorem isIdentifier_of_mem_identifiers {config : Config} (valid : config.complaint? = none) :
    ∀ setting ∈ config.identifiers, isIdentifier setting.2.toList = true := by
  unfold complaint? at valid
  split at valid
  · cases valid
  · rename_i noneFails
    intro setting listed
    simpa using List.find?_eq_none.mp noneFails setting listed

def describe (config : Config) : String :=
  "✓ Base class: " ++ config.baseClass ++ "\n" ++
    "✓ Scripts: " ++ config.scriptsDirectory ++ " (" ++
      ", ".intercalate config.headerExtensions ++ ")\n" ++
    "✓ Generated file: " ++ config.generatedFile ++ "\n" ++
    "✓ Signatures: " ++ toString config.signatureTable.entries.length ++ " (" ++
      toString config.signatures.length ++ " custom)\n"

end Config

end ScriptRegistrar
