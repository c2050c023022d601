import ScriptRegistrar.Aggregate
import ScriptRegistrar.Config.Loading
import ScriptRegistrar.Generator
import ScriptRegistrar.Generator.HandRegistration
import ScriptRegistrar.Injection
import ScriptRegistrar.Replacement

/-!
# Generation runs

A run scans the project, writes the aggregate, and updates the constructor of every class that
has messages.  Only a failure to write the aggregate ends a run; whatever else goes wrong with a
single file or class is noted, and the run goes on.
-/

namespace ScriptRegistrar

inductive GenerationFailure where
  /-- The aggregate could not be written. -/
  | aggregateWrite (path : Path) (cause : FileFailure)
  /-- There is no usable configuration. -/
  | config (failure : ConfigFailure)
  /-- The source extension makes no file name, so that no class can be looked up beside its
  header. -/
  | sourceExtension (extension : String)
  deriving DecidableEq, Repr

def GenerationFailure.message : GenerationFailure → String
  | .aggregateWrite path cause =>
    "failed to write generated file " ++ path.text ++ ": " ++ cause.message
  | .config failure => failure.message
  | .sourceExtension extension => "extension cannot contain path separators: " ++ extension

/-- What a run does to a tree, and how it ends. -/
structure GenerationResult where
  tree : FileTree
  result : Except GenerationFailure GenerationSummary

/-- What happened to the constructor of a class. -/
inductive InjectionResult where
  | updated
  | upToDate
  | noConstructor
  | skipped (reason : SkipReason)
  deriving DecidableEq, Repr

/-- What happened to the constructor of a class of a header. -/
structure InjectionNote where
  path : Path
  className : String
  result : InjectionResult
  deriving DecidableEq, Repr

namespace InjectionNote

def updated? (note : InjectionNote) : Option Path :=
  if note.result = .updated then some note.path else none

def withoutConstructor? (note : InjectionNote) : Option String :=
  if note.result = .noConstructor then some note.className else none

def skipped? (note : InjectionNote) : Option SkipNotice :=
  match note.result with
  | .skipped reason => some ⟨note.path, some note.className, reason⟩
  | _ => none

end InjectionNote

namespace Generator

/-- Brings the constructor of a class up to date in its header. -/
def injectInto (generator : Generator) (path : Path) (script : ScriptClass) (tree : FileTree) :
    FileTree × InjectionResult :=
  match tree.readText path with
  | .error failure => (tree, .skipped (.unreadable failure.message))
  | .ok text =>
    match Injection.inject? script.name generator.config.registration.statement script.messages
        text with
    | none => (tree, .noConstructor)
    | some injected =>
      if injected = text then (tree, .upToDate)
      else
        match Replacement.replace injected path tree with
        | ⟨replaced, none⟩ => (replaced, .updated)
        | ⟨left, some failure⟩ => (left, .skipped (.updateFailed failure.message))

/-- Brings the constructors of some classes up to date, one after the other. -/
def injectAll (generator : Generator) (root : Path) (tree : FileTree) :
    List ScriptClass → FileTree × List InjectionNote
  | [] => (tree, [])
  | script :: rest =>
    let path := root.join script.header
    let (changed, result) := generator.injectInto path script tree
    let (finished, notes) := injectAll generator root changed rest
    (finished, ⟨path, script.name, result⟩ :: notes)

/-- The summary of a run that wrote the aggregate. -/
def summarize (scan : ScanReport) (aggregate : Path) (notes : List InjectionNote) :
    GenerationSummary where
  scan := { scan with skipped := scan.skipped ++ notes.filterMap InjectionNote.skipped? }
  generatedFile := some aggregate
  updated := notes.filterMap InjectionNote.updated?
  withoutConstructor := notes.filterMap InjectionNote.withoutConstructor?

/-- The text of the aggregate for some classes; `none` if the registrations by hand cannot be
looked up. -/
def aggregate? (generator : Generator) (tree : FileTree) (root : Path)
    (scripts : List ScriptClass) : Option String :=
  let byHand? := HandRegistration.isByHand? generator.config tree root
  if (scripts.filter (!·.excluded)).all (fun script => (byHand? script).isSome) then
    some (Aggregate.render generator.config.registration
      (fun script => byHand? script = some true) scripts)
  else none

/-- Generates the registration code of a project.  Registrations by hand are judged by the tree
as it was before the run. -/
def generate (generator : Generator) (tree : FileTree) (project : Path) : GenerationResult :=
  let scan := generator.scan tree project
  match scan.scriptsRoot with
  | none => ⟨tree, .ok { scan := scan }⟩
  | some root =>
    let path := generator.aggregatePath root
    match generator.aggregate? tree root scan.records with
    | none => ⟨tree, .error (.sourceExtension generator.config.sourceExtension)⟩
    | some text =>
      match tree.writeText path text with
      | .error cause => ⟨tree, .error (.aggregateWrite path cause)⟩
      | .ok written =>
        let (injected, notes) := generator.injectAll root written
          (scan.records.filter ScriptClass.wantsInjection)
        ⟨injected, .ok (summarize scan path notes)⟩

end Generator

/-- Generates the registration code of a project with the configuration in its root. -/
def generateProject (tree : FileTree) (project : Path) : GenerationResult :=
  match Config.loadForProject tree project with
  | .error failure => ⟨tree, .error (.config failure)⟩
  | .ok config =>
    match Generator.ofConfig config with
    | .error failure => ⟨tree, .error (.config failure)⟩
    | .ok generator => generator.generate tree project

end ScriptRegistrar
