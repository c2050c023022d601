import ScriptRegistrar.Constructor
import ScriptRegistrar.Record

/-!
# Injecting registrations into a constructor

Messages are registered by the default constructor of their class.  Injection replaces what
stands between its braces: registrations of earlier runs go, every other line that is not empty
stays, trimmed and indented anew, and one registration for each message is added at the end.
-/

namespace ScriptRegistrar.Injection

open Text

/-- The line ending of a text: that of its first Windows line if it has one. -/
def lineEnding (text : List Char) : List Char :=
  if contains ['\r', '\n'] text then ['\r', '\n'] else ['\n']

/-- The statement that registers a message. -/
def registration (className statement : String) (message : Message) : List Char :=
  (statement ++ "(\"" ++ message.name ++ "\", &" ++ className ++ "::" ++ message.function ++
    ");").toList

/-- The lines of a constructor's body that stay: those that hold more than blanks and do not hold
the registration statement. -/
def keptLines (statement : String) (body : List Char) : List (List Char) :=
  ((lines body).map trim).filter fun line => !line.isEmpty && !contains statement.toList line

def bodyLines (className statement : String) (messages : List Message) (body : List Char) :
    List (List Char) :=
  keptLines statement body ++
    (keepFirst (·.function) messages).map (registration className statement)

/-- A body made of lines, each indented by four spaces more than the constructor. -/
def renderBody (ending indent : List Char) (lines : List (List Char)) : List Char :=
  ending ++ (lines.map (fun line => indent ++ "    ".toList ++ line ++ ending)).flatten ++ indent

def replaceBody (constructor : Constructor) (body : List Char) : List Char :=
  constructor.opened.passed.reverse ++ body ++ '\x7d' :: constructor.behind

/-- Updates the default constructor of a class; `none` if the text holds none. -/
def update? (className statement : String) (messages : List Message) (text : List Char) :
    Option (List Char) :=
  (Constructor.find? className.toList text).map fun constructor =>
    replaceBody constructor (renderBody (lineEnding text) constructor.indent
      (bodyLines className statement messages constructor.body))

/-- Registers messages in the default constructor of a class; `none` if the text holds none. -/
def inject? (className statement : String) (messages : List Message) (text : String) :
    Option String :=
  (update? className statement messages text.toList).map String.ofList

/-- Registers messages in the default constructor of a class.  A text without one stays as it
is. -/
def inject (className statement : String) (messages : List Message) (text : String) : String :=
  (inject? className statement messages text).getD text

end ScriptRegistrar.Injection
