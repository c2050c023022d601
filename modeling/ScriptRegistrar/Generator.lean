import ScriptRegistrar.Config.Validation
import ScriptRegistrar.FileTree.Listing
import ScriptRegistrar.FileTree.Operation
import ScriptRegistrar.HeaderScan
import ScriptRegistrar.Report

/-!
# Generators and project scans

A generator is a configuration that there is nothing to complain about, with the signature table
it is to use.  Its scan visits every header below the scripts directory in order.  A header that
cannot be read, and a class whose body cannot be read, are noted and passed over.
-/

namespace ScriptRegistrar

open Text

/-- A configuration that may be run. -/
structure Generator where
  config : Config
  table : SignatureTable
  valid : config.complaint? = none

namespace Generator

/-- The generator of a valid configuration, with a signature table of its own. -/
def withTable (config : Config) (table : SignatureTable) : Except ConfigFailure Generator :=
  match complaint : config.complaint? with
  | some reason => .error (.invalid reason)
  | none => .ok ⟨config, table, complaint⟩

def ofConfig (config : Config) : Except ConfigFailure Generator :=
  withTable config config.signatureTable

/-- What is looked for in a header. -/
def scanner (generator : Generator) : Scanner :=
  .withTable generator.config generator.table

/-- The path of the aggregate below a scripts directory. -/
def aggregatePath (generator : Generator) (root : Path) : Path :=
  root.join ⟨generator.config.generatedFile⟩

/-- Whether a file is a header to scan: it has the extension of one and is not the aggregate. -/
def isHeader (generator : Generator) (root path : Path) : Bool :=
  !path.agrees (generator.aggregatePath root) &&
    path.extension?.any generator.config.isHeaderExtension

/-- The headers below a scripts directory, in order. -/
def headers (generator : Generator) (tree : FileTree) (root : Path) : List Path :=
  (tree.filesBelow root).filter (generator.isHeader root)

/-- What one header adds to the report of a project. -/
def scanFile (generator : Generator) (tree : FileTree) (root path : Path) : ScanReport :=
  match tree.read path with
  | .error failure => { skipped := [⟨path, none, .unreadable failure.message⟩] }
  | .ok content =>
    let header := (path.relativeTo? root).getD path
    let scan := generator.scanner.scanHeader (Utf8.decodeLossy content) header
    { headersScanned := 1
      records := scan.records
      skipped := scan.failure.toList.map fun failure =>
        ⟨path, some failure.className, .malformed failure⟩ }

def scan (generator : Generator) (tree : FileTree) (project : Path) : ScanReport :=
  let root := generator.config.scriptsRoot project
  if tree.isDirectory root then
    let parts := (generator.headers tree root).map (generator.scanFile tree root)
    { scriptsRoot := some root
      headersScanned := parts.foldr (fun part total => part.headersScanned + total) 0
      records := parts.flatMap (·.records)
      skipped := parts.flatMap (·.skipped) }
  else {}

end Generator

end ScriptRegistrar
