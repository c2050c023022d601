import ScriptRegistrar.Config
import ScriptRegistrar.FileTree.Operation
import ScriptRegistrar.Record

/-!
# Registration by hand

A class may be registered by hand in the file beside its header that has the source extension.
It is if that file holds the block macro and names the class in a registration.
-/

namespace ScriptRegistrar.HandRegistration

open Text

/-- The file beside a header in which its classes may be registered; `none` if the extension
makes no file name. -/
def siblingPath? (config : Config) (root header : Path) : Option Path :=
  (root.join header).withExtension? config.sourceExtension

/-- Whether a source text registers a class. -/
def registers (config : Config) (className : String) (text : List Char) : Bool :=
  contains config.registration.block.toList text &&
    contains ("class_<" ++ className ++ ">").toList text

/-- Whether a class is registered by hand.  A file that cannot be read registers nothing. -/
def isByHand? (config : Config) (tree : FileTree) (root : Path) (script : ScriptClass) :
    Option Bool := do
  let sibling ← siblingPath? config root script.header
  match tree.readText sibling with
  | .ok text => some (registers config script.name text.toList)
  | .error _ => some false

end ScriptRegistrar.HandRegistration
