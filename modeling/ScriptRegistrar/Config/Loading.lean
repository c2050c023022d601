import ScriptRegistrar.Config.Document
import ScriptRegistrar.FileTree.Operation

/-!
# Loading a configuration

A configuration is read from a file that is named, or from the one in the root of the project if
there is one; otherwise all settings have their defaults.
-/

namespace ScriptRegistrar.Config

def load (tree : FileTree) (path : Path) : Except ConfigFailure Config :=
  match tree.readText path with
  | .ok text => parse text
  | .error cause => .error (.unreadable path cause)

/-- Reads the configuration file in the root of a project, if there is one. -/
def loadForProject (tree : FileTree) (project : Path) : Except ConfigFailure Config :=
  let path := project.join ⟨fileName⟩
  if tree.isFile path then load tree path else .ok {}

end ScriptRegistrar.Config
