import ScriptRegistrar.FileTree.Operation

/-!
# Protected replacement

A file is replaced in three steps: it moves to a backup beside it, the new content is written, and
the backup is removed.  If writing fails, what was written is removed and the backup moves back,
so that the path holds the old content or the new one and nothing between.
-/

namespace ScriptRegistrar

inductive ReplaceFailure where
  /-- The file could not move to its backup; nothing has changed. -/
  | backup (path : Path) (cause : FileFailure)
  /-- Writing failed, and the old content is back. -/
  | write (path : Path) (cause : FileFailure)
  /-- Writing failed, and the old content is still in the backup. -/
  | restore (path backup : Path) (writing restoring : FileFailure)
  deriving DecidableEq, Repr

def ReplaceFailure.message : ReplaceFailure → String
  | .backup path cause => "failed to back up " ++ path.text ++ ": " ++ cause.message
  | .write path cause => "failed to write " ++ path.text ++ ": " ++ cause.message
  | .restore path spare writing restoring =>
    "failed to write " ++ path.text ++ " (" ++ writing.message ++
      ") and failed to restore it from " ++ spare.text ++ " (" ++ restoring.message ++ ")"

namespace Replacement

/-- What is left of a tree after an attempt, and why the attempt failed if it did. -/
structure Outcome (ε : Type) where
  tree : FileTree
  failure : Option ε := none

/-- Something that writes a path.  It may fail half way, so a failed attempt has a tree too. -/
abbrev Writer := Path → FileTree → Outcome FileFailure

/-- The writer that puts a text into a file. -/
def textWriter (text : String) : Writer := fun path tree =>
  match tree.writeText path text with
  | .ok written => ⟨written, none⟩
  | .error failure => ⟨tree, some failure⟩

/-- Where a file stands while it is replaced. -/
def backupPath (path : Path) : Path :=
  ⟨path.text ++ ".bak"⟩

/-- The tree after an operation, or the old one if the operation failed. -/
def attempt (tree : FileTree) (operation : FileTree → Except FileFailure FileTree) : FileTree :=
  match operation tree with
  | .ok changed => changed
  | .error _ => tree

/-- Removes what a failed writer left at a path and moves the backup back. -/
def restore (path : Path) (tree : FileTree) (cause : FileFailure) : Outcome ReplaceFailure :=
  let backup := backupPath path
  let cleared := if tree.pathExists path then attempt tree (·.removeFile path) else tree
  match cleared.rename backup path with
  | .ok restored => ⟨restored, some (.write path cause)⟩
  | .error failure => ⟨cleared, some (.restore path backup cause failure)⟩

/-- Replaces what stands at a path with what a writer puts there. -/
def replaceWith (writer : Writer) (path : Path) (tree : FileTree) : Outcome ReplaceFailure :=
  let backup := backupPath path
  match tree.rename path backup with
  | .error failure => ⟨tree, some (.backup path failure)⟩
  | .ok moved =>
    match writer path moved with
    | ⟨written, none⟩ => ⟨attempt written (·.removeFile backup), none⟩
    | ⟨partly, some cause⟩ => restore path partly cause

def replace (text : String) (path : Path) (tree : FileTree) : Outcome ReplaceFailure :=
  replaceWith (textWriter text) path tree

end Replacement

end ScriptRegistrar
