import ScriptRegistrar.Command.Arguments
import ScriptRegistrar.Command.Failure
import ScriptRegistrar.Command.LogFilter
import ScriptRegistrar.Report.Json

/-!
# Running a command

What the program prints and what it does to the files, for given arguments.
-/

namespace ScriptRegistrar.Command

structure Completion where
  tree : FileTree
  exitCode : Nat := 0
  output : String := ""
  errorOutput : String := ""

def version : String :=
  "0.3.0"

def usage : String :=
  "Registration code generator for script classes\n\n" ++
    "Usage: scriptbind [OPTIONS] <COMMAND>\n\n" ++
    "Commands:\n" ++
    "  generate  Generate registration code for a project's scripts\n" ++
    "  scan      List script classes, messages, and properties without writing files\n" ++
    "  check     Validate a scriptbind.toml configuration\n" ++
    "  help      Print this message or the help of the given subcommand(s)\n\n" ++
    "Options:\n" ++
    "      --log-level <LOG_LEVEL>  Log filter, e.g. debug (default: info)\n" ++
    "  -h, --help                   Print help\n" ++
    "  -V, --version                Print version\n"

/-- The root of a project: the current directory if none is named. -/
def projectRoot (project : Option String) : Path :=
  ⟨project.getD "."⟩

/-- The configuration of a command: of the named file, or of the project. -/
def loadConfig (tree : FileTree) (project : Path) (config : Option String) :
    Except Failure Config := do
  let loaded ← match config with
    | some path =>
      (Config.load tree ⟨path⟩).mapError (.loadConfig path)
    | none =>
      (Config.loadForProject tree project).mapError (.loadProjectConfig project)
  (loaded.validate).mapError .invalidConfiguration
  return loaded

def loadGenerator (tree : FileTree) (project : Path) (config : Option String) :
    Except Failure Generator := do
  let loaded ← loadConfig tree project config
  (Generator.ofConfig loaded).mapError .config

/-- The end of a command that failed after printing something. -/
def failed (tree : FileTree) (output : String) (failure : Failure) : Completion :=
  { tree, exitCode := 1, output, errorOutput := failure.render }

/-- Generates the registration code of a project and prints a summary. -/
def runGenerate (tree : FileTree) (project config : Option String) : Completion :=
  let root := projectRoot project
  match loadGenerator tree root config with
  | .error failure => failed tree "" failure
  | .ok generator =>
    let heading := "Scanning scripts: " ++ (generator.config.scriptsRoot root).text ++ "\n"
    match generator.generate tree root with
    | ⟨changed, .ok summary⟩ => { tree := changed, output := heading ++ summary.text }
    | ⟨changed, .error (.sourceExtension extension)⟩ =>
      { tree := changed
        exitCode := 101
        output := heading
        errorOutput := (GenerationFailure.sourceExtension extension).message ++ "\n" }
    | ⟨changed, .error failure⟩ => failed changed heading (.generate failure)

/-- Prints what generation would register. -/
def runScan (tree : FileTree) (project config : Option String) (json : Bool) : Completion :=
  let root := projectRoot project
  match loadGenerator tree root config with
  | .error failure => failed tree "" failure
  | .ok generator =>
    let report := generator.scan tree root
    { tree, output := if json then report.json ++ "\n" else report.text }

/-- Validates a configuration file and prints what it configures. -/
def runCheck (tree : FileTree) (config : Option String) : Completion :=
  let path := config.getD Config.fileName
  let heading := "Checking config: " ++ path ++ "\n"
  match Config.load tree ⟨path⟩ with
  | .error failure => failed tree heading (.config failure)
  | .ok loaded =>
    match loaded.validate with
    | .error failure => failed tree heading (.invalidConfig path failure)
    | .ok () => { tree, output := heading ++ loaded.describe ++ "\nConfig is valid!\n" }

/-- The configuration files that arguments make the program look for. -/
def configPaths (arguments : List String) : List Path :=
  let ofRun := fun (project config : Option String) =>
    match config with
    | some path => [⟨path⟩]
    | none => [(projectRoot project).join ⟨Config.fileName⟩]
  match interpret arguments with
  | .request _ (.generate project config) => ofRun project config
  | .request _ (.scan project config _) => ofRun project config
  | .request _ (.check config) => [⟨config.getD Config.fileName⟩]
  | _ => []

/-- The scripts directories that arguments make the program visit, once the configuration files
are in the tree. -/
def scriptsRoots (tree : FileTree) (arguments : List String) : List Path :=
  let ofRun := fun (project config : Option String) =>
    match loadGenerator tree (projectRoot project) config with
    | .ok generator => [generator.config.scriptsRoot (projectRoot project)]
    | .error _ => []
  match interpret arguments with
  | .request _ (.generate project config) => ofRun project config
  | .request _ (.scan project config _) => ofRun project config
  | _ => []

def run (tree : FileTree) (arguments : List String) : Completion :=
  match interpret arguments with
  | .misuse => { tree, exitCode := 2, errorOutput := usage }
  | .request _ .version => { tree, output := "scriptbind " ++ version ++ "\n" }
  | .request _ .help => { tree, output := usage }
  | .request _ (.generate project config) => runGenerate tree project config
  | .request _ (.scan project config json) => runScan tree project config json
  | .request _ (.check config) => runCheck tree config

end ScriptRegistrar.Command
