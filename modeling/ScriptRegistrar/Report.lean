import ScriptRegistrar.ClassBody
import ScriptRegistrar.Record

/-!
# Reports of a run

A scan lists the classes of a project and what it had to skip; a generation run adds what it
wrote.  Both are printed for people here.  An entry that cannot be visited is reported as
inaccessible; every entry of a `FileTree` can be, so no run over one gives this reason.
-/

namespace ScriptRegistrar

/-- Why a file or a class was left out of a run. -/
inductive SkipReason where
  /-- A directory entry could not be visited. -/
  | inaccessible (detail : String)
  /-- A header could not be read. -/
  | unreadable (detail : String)
  /-- The body of a class could not be read. -/
  | malformed (failure : ScanFailure)
  /-- A header could not be replaced, and its old content was kept. -/
  | updateFailed (detail : String)
  deriving DecidableEq, Repr

def SkipReason.message : SkipReason → String
  | .inaccessible detail => "inaccessible: " ++ detail
  | .unreadable detail => "unreadable: " ++ detail
  | .malformed failure => "malformed: " ++ failure.message
  | .updateFailed detail => "rewrite failed: " ++ detail

structure SkipNotice where
  path : Path
  className : Option String
  reason : SkipReason
  deriving DecidableEq, Repr

/-- What a scan found in a project. -/
structure ScanReport where
  /-- The scripts directory, if the project has one. -/
  scriptsRoot : Option Path := none
  /-- The number of headers that could be read. -/
  headersScanned : Nat := 0
  records : List ScriptClass := []
  skipped : List SkipNotice := []
  deriving DecidableEq, Repr

structure GenerationSummary where
  scan : ScanReport := {}
  /-- The path of the aggregate, if one was written. -/
  generatedFile : Option Path := none
  /-- The headers in which a constructor was updated. -/
  updated : List Path := []
  /-- The classes with messages but without a default constructor. -/
  withoutConstructor : List String := []
  deriving DecidableEq, Repr

/-- The words for a rule in a report for people. -/
def DiscoveryRule.label : DiscoveryRule → String
  | .marker => "marker"
  | .namedMarker => "named marker"
  | .signature => "signature"

namespace ScanReport

def messageLine (className : String) (message : Message) : String :=
  "    message " ++ message.name ++ " -> " ++ className ++ "::" ++ message.function ++ "(" ++
    ", ".intercalate message.parameters ++ ") [" ++ message.rule.label ++ "]\n"

def propertyLine (property : Property) : String :=
  "    property " ++ property.name ++ ": " ++ property.type ++ "\n"

def classLines (script : ScriptClass) : String :=
  "\n" ++ script.name ++ " (" ++ script.includePath ++ ")\n" ++
    if script.excluded then "    excluded from generation\n"
    else String.join (script.messages.map (messageLine script.name)) ++
      String.join (script.properties.map propertyLine)

def skippedLines (notice : SkipNotice) : String :=
  "\nskipped " ++ notice.path.text ++ ": " ++ notice.reason.message ++ "\n"

/-- The report, with a paragraph for each class. -/
def text (report : ScanReport) : String :=
  match report.scriptsRoot with
  | none => "No scripts directory found\n"
  | some root =>
    "Scripts: " ++ root.text ++ "\n" ++
      "Headers scanned: " ++ toString report.headersScanned ++ "\n" ++
      String.join (report.records.map classLines) ++
      String.join (report.skipped.map skippedLines)

end ScanReport

namespace GenerationSummary

def skippedLine (notice : SkipNotice) : String :=
  "    " ++ notice.path.text ++
    (match notice.className with
      | some className => " (" ++ className ++ ")"
      | none => "") ++
    ": " ++ notice.reason.message ++ "\n"

/-- The summary, a line for each count and the names below it. -/
def text (summary : GenerationSummary) : String :=
  match summary.generatedFile with
  | none => "No scripts directory, nothing generated\n"
  | some generated =>
    let skipped := summary.scan.skipped
    "✓ Headers scanned: " ++ toString summary.scan.headersScanned ++ "\n" ++
      "✓ Script classes: " ++ toString summary.scan.records.length ++ "\n" ++
      "✓ Generated: " ++ generated.text ++ "\n" ++
      "✓ Constructors updated: " ++ toString summary.updated.length ++ "\n" ++
      String.join (summary.updated.map fun path => "    " ++ path.text ++ "\n") ++
      (if summary.withoutConstructor.isEmpty then ""
        else "- No default constructor: " ++ ", ".intercalate summary.withoutConstructor ++
          "\n") ++
      (if skipped.isEmpty then ""
        else "! Skipped: " ++ toString skipped.length ++ "\n" ++
          String.join (skipped.map skippedLine))

end GenerationSummary

end ScriptRegistrar
