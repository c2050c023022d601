import ScriptRegistrar.Command.Run

/-!
# The program

Loads the files that the arguments name into a tree, runs the command on it, and writes what has
changed back.  All decisions are made by `Command.run`.
-/

namespace ScriptRegistrar.Program

def absoluteText (location : Location) : String :=
  "/" ++ "/".intercalate location

/-- Adds the file or the directory at a path of the disk to a tree, with all that is in it. -/
partial def loadInto (tree : FileTree) (path : String) (location : Location) : IO FileTree := do
  try
    let found ← IO.FS.realPath path
    if ← found.isDir then
      let mut loaded := tree.makeDirectories [] location
      for entry in ← found.readDir do
        loaded ← loadInto loaded (path ++ "/" ++ entry.fileName) (location ++ [entry.fileName])
      return loaded
    else
      let content ← IO.FS.readBinFile path
      return tree.place location (.file content.toList)
  catch _ => return tree

def loadPaths (tree : FileTree) (paths : List Path) : IO FileTree :=
  paths.foldlM (fun tree path => loadInto tree path.text (tree.statedLocation path)) tree

/-- Writes a changed file to the disk, or removes one that is gone.  The old content stays beside
it until the new one is written. -/
def store (location : Location) (content : Option Bytes) : IO Unit := do
  let path := absoluteText location
  match content with
  | none => IO.FS.removeFile path
  | some bytes =>
    let written := path ++ ".new"
    IO.FS.writeBinFile written ⟨bytes.toArray⟩
    IO.FS.rename written path

end ScriptRegistrar.Program

open ScriptRegistrar Program in
def main (arguments : List String) : IO UInt32 := do
  let directory : Path := ⟨(← IO.currentDir).toString⟩
  let empty : FileTree := {}
  let start := empty.statedLocation directory
  let bare := { empty.makeDirectories [] start with workingDirectory := start }
  let configured ← loadPaths bare (Command.configPaths arguments)
  let tree ← loadPaths configured (Command.scriptsRoots configured arguments)
  let done := Command.run tree arguments
  for (location, content) in tree.changes done.tree do
    store location content
  (← IO.getStdout).putStr done.output
  (← IO.getStderr).putStr done.errorOutput
  return done.exitCode.toUInt32
