import ScriptRegistrar.Config
import ScriptRegistrar.Members.Handler
import ScriptRegistrar.Members.PropertyDeclaration

/-!
# Members of a class body

A body is searched for message handlers three times: for those with the plain marker, for those
with the naming marker, and for bare declarations with the signature of an engine message.  The
first search that finds a function decides what is known of it.
-/

namespace ScriptRegistrar

open Text

structure Members where
  /-- The class opted out, and nothing else was looked for. -/
  suppressed : Bool := false
  messages : List Message := []
  properties : List Property := []
  deriving DecidableEq, Repr

namespace Members

/-- Reads `token` as whole words. -/
def readToken? (token : List Char) : Recogniser Unit := fun cursor => do
  guard cursor.isBoundary
  let behind ← cursor.literal? token
  guard behind.isBoundary
  some ((), behind)

/-- Whether a class body holds the token that keeps its class out of generation. -/
def isSuppressed (markers : Markers) (body : List Char) : Bool :=
  (Recogniser.first? (readToken? markers.suppress.toList) (Cursor.start body)).isSome

/-- Adds a message, unless its function already handles one. -/
def credit (messages : List Message) (message : Message) : List Message :=
  if messages.any (·.function = message.function) then messages else messages ++ [message]

/-- The messages found by one rule, in text order. -/
def found (rule : DiscoveryRule) (markers : Markers) (table : SignatureTable)
    (body : List Char) : List Message :=
  match rule with
  | .marker =>
    (Handler.Declaration.all (Handler.Head.readMarked? markers.message.toList) body).map
      (Handler.Declaration.message .marker)
  | .namedMarker =>
    (Handler.Declaration.all (Handler.Head.readNamed? markers.namedMessage.toList) body).map
      (Handler.Declaration.message .namedMarker)
  | .signature =>
    ((Handler.Declaration.all Handler.Head.readBare? body).map
      (Handler.Declaration.message .signature)).filter
        (fun message => table.accepts message.function message.parameters)

def messagesOf (markers : Markers) (table : SignatureTable) (body : List Char) : List Message :=
  let marked := (found .marker markers table body).foldl credit []
  let named := (found .namedMarker markers table body).foldl credit marked
  (found .signature markers table body).foldl credit named

def scan (markers : Markers) (table : SignatureTable) (body : List Char) : Members :=
  if isSuppressed markers body then { suppressed := true }
  else
    { messages := messagesOf markers table body
      properties := PropertyDeclaration.all markers.property.toList body }

end Members

end ScriptRegistrar
