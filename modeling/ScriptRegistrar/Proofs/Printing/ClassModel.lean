import Mathlib.Data.List.Basic
import ScriptRegistrar.HeaderScan
import ScriptRegistrar.Proofs.Printing.TypeModel

/-!
# Classes to print

A script class as a value: message handlers of the three kinds, properties, and whether it opts
out.  `ClassModel.print` writes its declaration with one member to a line, and `ClassModel.record`
says what a scan ought to find in it, without scanning: marked handlers come before labelled ones
and these before bare ones of the signature table, and the first handler of a function counts.
`ClassModel.recordOf` leaves open how the types of a parameter list are told.
-/

namespace ScriptRegistrar.Printing

open Text

structure ParameterModel where
  type : TypeModel
  name : String

inductive MemberModel where
  /-- A handler with the plain marker. -/
  | marked (function : String) (parameters : List ParameterModel)
  /-- A handler with the marker that names its message. -/
  | labelled (label function : String) (parameters : List ParameterModel)
  /-- A handler without a marker. -/
  | bare (function : String) (parameters : List ParameterModel)
  /-- A marked property. -/
  | property (type : TypeModel) (name : String)

structure ClassModel where
  name : String
  /-- Whether the class opts out of generation. -/
  suppressed : Bool
  members : List MemberModel

/-- The normal form of a printed type. -/
def TypeModel.normal (type : TypeModel) : String :=
  String.ofList (TypeText.normalForm type.print)

/-- A parameter as a header writes it. -/
def ParameterModel.print (parameter : ParameterModel) : List Char :=
  parameter.type.print ++ ' ' :: parameter.name.toList

def ParameterModel.WellFormed (markers : Markers) (parameter : ParameterModel) : Prop :=
  parameter.type.WellFormed markers ∧ IsName markers parameter.name

/-- The types that a parameter list declares. -/
def declaredTypes (parameters : List ParameterModel) : List String :=
  parameters.map (·.type.normal)

/-- A parameter list with a comma and a space between its parameters. -/
def printParameters : List ParameterModel → List Char
  | [] => []
  | first :: rest => first.print ++ rest.flatMap fun parameter => ',' :: ' ' :: parameter.print

/-- What follows the name of a handler. -/
def printTail (parameters : List ParameterModel) : List Char :=
  printParameters parameters ++ ");\n".toList

/-- The declaration of a handler, from `void` to the end of its line. -/
def printHandler (function : String) (parameters : List ParameterModel) : List Char :=
  "void".toList ++ ' ' :: (function.toList ++ '(' :: printTail parameters)

namespace MemberModel

/-- The line of a member. -/
def print (markers : Markers) : MemberModel → List Char
  | marked function parameters =>
    markers.message.toList ++ ("() ".toList ++ printHandler function parameters)
  | labelled label function parameters =>
    markers.namedMessage.toList ++ ("(\"".toList ++ (label.toList ++ ("\") ".toList ++
      printHandler function parameters)))
  | bare function parameters => printHandler function parameters
  | property type name =>
    markers.property.toList ++ ("() ".toList ++ (type.print ++ ' ' :: (name.toList ++ ";\n".toList)))

/-- The parameters of a handler. -/
def parameters : MemberModel → List ParameterModel
  | marked _ parameters | labelled _ _ parameters | bare _ parameters => parameters
  | property .. => []

section

variable (typesOf : List ParameterModel → List String)

/-- The message of a handler under a rule. -/
def message (rule : DiscoveryRule) (name function : String) (parameters : List ParameterModel) :
    Message where
  name := name
  function := function
  parameters := typesOf parameters
  rule := rule

/-- The message of a handler with the plain marker. -/
def marked? : MemberModel → Option Message
  | marked function parameters => some (message typesOf .marker function function parameters)
  | _ => none

/-- The message of a handler with the marker that names its message. -/
def labelled? : MemberModel → Option Message
  | labelled label function parameters =>
    some (message typesOf .namedMarker label function parameters)
  | _ => none

/-- The message of a handler without a marker, which counts if a table lists its signature. -/
def bare? (table : SignatureTable) : MemberModel → Option Message
  | bare function parameters =>
    some (message typesOf .signature function function parameters) |>.filter fun message =>
      table.accepts message.function message.parameters
  | _ => none

variable {typesOf} {otherTypes : List ParameterModel → List String}

theorem picked_congr {member : MemberModel}
    (alike : typesOf member.parameters = otherTypes member.parameters) (table : SignatureTable) :
    marked? typesOf member = marked? otherTypes member ∧
      labelled? typesOf member = labelled? otherTypes member ∧
        bare? typesOf table member = bare? otherTypes table member := by
  cases member with
  | marked | labelled | bare =>
      rw [parameters] at alike
      simp [marked?, labelled?, bare?, message, alike]
  | property => simp [marked?, labelled?, bare?]

end

def property? : MemberModel → Option Property
  | property type name => some ⟨name, type.normal⟩
  | _ => none

def WellFormed (markers : Markers) : MemberModel → Prop
  | marked function parameters | bare function parameters =>
    IsName markers function ∧ ∀ parameter ∈ parameters, parameter.WellFormed markers
  | labelled label function parameters =>
    IsName markers label ∧ IsName markers function ∧
      ∀ parameter ∈ parameters, parameter.WellFormed markers
  | property type name => type.WellFormed markers ∧ IsName markers name

theorem WellFormed.parameters {markers : Markers} {member : MemberModel}
    (fits : member.WellFormed markers) :
    ∀ parameter ∈ member.parameters, parameter.WellFormed markers := by
  cases member with
  | marked | bare => exact fits.2
  | labelled => exact fits.2.2
  | property => exact List.forall_mem_nil _

end MemberModel

namespace ClassModel

/-- The lines between the braces of a class.  `setup` stands before the members. -/
def printBody (markers : Markers) (setup : List Char) (model : ClassModel) : List Char :=
  '\n' :: (setup ++ (model.members.flatMap (·.print markers) ++
    if model.suppressed then markers.suppress.toList ++ ['\n'] else []))

/-- The head of a class up to its opening brace. -/
def printHead (baseClass : String) (model : ClassModel) : List Char :=
  "class ".toList ++ (model.name.toList ++ (" : public ".toList ++ (baseClass.toList ++ [' '])))

/-- The declaration of a class with `setup` before its members. -/
def printWith (config : Config) (setup : List Char) (model : ClassModel) : List Char :=
  model.printHead config.baseClass ++ '\x7b' :: (model.printBody config.markers setup ++
    '\x7d' :: ";\n".toList)

def print (config : Config) (model : ClassModel) : List Char :=
  model.printWith config []

/-- The messages of a class that does not opt out. -/
def messages (typesOf : List ParameterModel → List String) (table : SignatureTable)
    (model : ClassModel) : List Message :=
  keepFirst (·.function) (model.members.filterMap (MemberModel.marked? typesOf) ++
    model.members.filterMap (MemberModel.labelled? typesOf) ++
    model.members.filterMap (MemberModel.bare? typesOf table))

/-- The record of a class, the types of a parameter list told by `typesOf`. -/
def recordOf (typesOf : List ParameterModel → List String) (table : SignatureTable)
    (header : Path) (model : ClassModel) : ScriptClass :=
  if model.suppressed then { name := model.name, header, excluded := true }
  else
    { name := model.name, header, messages := model.messages typesOf table
      properties := model.members.filterMap MemberModel.property? }

/-- What a scan ought to find in a class. -/
def record (table : SignatureTable) (header : Path) (model : ClassModel) : ScriptClass :=
  model.recordOf declaredTypes table header

theorem recordOf_congr {typesOf otherTypes : List ParameterModel → List String}
    {model : ClassModel} (alike : ∀ member ∈ model.members,
      typesOf member.parameters = otherTypes member.parameters)
    (table : SignatureTable) (header : Path) :
    model.recordOf typesOf table header = model.recordOf otherTypes table header := by
  have same := fun member listed => MemberModel.picked_congr (alike member listed) table
  have marked := List.filterMap_congr fun member listed => (same member listed).1
  have labelled := List.filterMap_congr fun member listed => (same member listed).2.1
  have bare := List.filterMap_congr fun member listed => (same member listed).2.2
  rw [recordOf, recordOf, messages, messages, marked, labelled, bare]

structure WellFormed (markers : Markers) (model : ClassModel) : Prop where
  name : IsName markers model.name
  members : ∀ member ∈ model.members, member.WellFormed markers

end ClassModel

end ScriptRegistrar.Printing
