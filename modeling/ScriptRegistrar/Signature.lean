import ScriptRegistrar.TypeText

/-!
# Signatures the engine broadcasts

A bare declaration is a message handler if its name and its parameter types are those of a
message that the engine sends to every script.  The table lists those messages.
-/

namespace ScriptRegistrar

/-- A message of the engine: its name, which is also the name of its handler, and the types of
its parameters in order. -/
structure Signature where
  name : String
  parameters : List String := []
  deriving DecidableEq, Repr

namespace Signature

/-- Whether a declaration has this signature.  Types agree if their normal forms do. -/
def accepts (signature : Signature) (name : String) (parameters : List String) : Bool :=
  signature.name = name &&
    signature.parameters.map TypeText.normalize = parameters.map TypeText.normalize

end Signature

/-- The messages that need no marker, in order. -/
structure SignatureTable where
  entries : List Signature
  deriving DecidableEq, Repr

namespace SignatureTable

/-- The messages that the engine sends to every script. -/
def engineDefault : SignatureTable :=
  let lifecycle := ["Awake", "Start", "Update", "LateUpdate", "FixedUpdate", "OnEnable",
    "OnDisable", "OnDestroy"]
  let collision := ["OnCollisionEnter", "OnCollisionStay", "OnCollisionExit"]
  let trigger := ["OnTriggerEnter", "OnTriggerStay", "OnTriggerExit"]
  ⟨lifecycle.map (⟨·, []⟩) ++ collision.map (⟨·, ["CollisionInfo"]⟩) ++
    trigger.map (⟨·, ["TriggerInfo"]⟩)⟩

/-- The table with more messages at its end. -/
def append (table : SignatureTable) (extra : List Signature) : SignatureTable :=
  ⟨table.entries ++ extra⟩

/-- Whether a declaration has one of the signatures of the table. -/
def accepts (table : SignatureTable) (name : String) (parameters : List String) : Bool :=
  table.entries.any (·.accepts name parameters)

end SignatureTable

end ScriptRegistrar
