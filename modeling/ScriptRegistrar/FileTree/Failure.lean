/-!
# Failures of file operations

Why an operation on files does not succeed, with the text that a report gives for it.
-/

namespace ScriptRegistrar

inductive FileFailure where
  | notFound
  | busy
  | notADirectory
  | isADirectory
  | invalidArgument
  | nameTooLong
  | directoryNotEmpty
  /-- A name holds the character of code point zero. -/
  | zeroInName
  /-- The content of a file is no UTF-8 text. -/
  | notText
  /-- A writer gave up for a reason of its own. -/
  | refused (reason : String)
  deriving DecidableEq, Repr

namespace FileFailure

/-- The text of a failure that the system numbers. -/
def numbered (text : String) (number : Nat) : String :=
  text ++ " (os error " ++ toString number ++ ")"

def message : FileFailure → String
  | .notFound => numbered "No such file or directory" 2
  | .busy => numbered "Device or resource busy" 16
  | .notADirectory => numbered "Not a directory" 20
  | .isADirectory => numbered "Is a directory" 21
  | .invalidArgument => numbered "Invalid argument" 22
  | .nameTooLong => numbered "File name too long" 36
  | .directoryNotEmpty => numbered "Directory not empty" 39
  | .zeroInName => "file name contained an unexpected NUL byte"
  | .notText => "stream did not contain valid UTF-8"
  | .refused reason => reason

end FileFailure

end ScriptRegistrar
