import ScriptRegistrar.Report

/-!
# Reports as JSON

A scan report as a JSON document: two spaces for each level, every member on a line of its own,
and empty lists closed at once.  Strings escape quotation marks, backslashes and control
characters and nothing else.
-/

namespace ScriptRegistrar.Report

inductive Json where
  | null
  | boolean (value : Bool)
  | number (value : Nat)
  | string (value : String)
  | array (items : List Json)
  | object (members : List (String × Json))

namespace Json

/-- The escape sequence of a character, or the character itself. -/
def escape (character : Char) : List Char :=
  if character = '"' then ['\\', '"']
  else if character = '\\' then ['\\', '\\']
  else if character = '\n' then ['\\', 'n']
  else if character = '\r' then ['\\', 'r']
  else if character = '\t' then ['\\', 't']
  else if character = '\x08' then ['\\', 'b']
  else if character = '\x0c' then ['\\', 'f']
  else if character.toNat < 0x20 then
    ['\\', 'u', '0', '0', Nat.digitChar (character.toNat / 16),
      Nat.digitChar (character.toNat % 16)]
  else [character]

def quote (value : String) : String :=
  "\"" ++ String.ofList (value.toList.flatMap escape) ++ "\""

/-- The space at the start of a line. -/
def indentation (level : Nat) : String :=
  String.ofList (List.replicate (2 * level) ' ')

/-- Members between an opening and a closing sign, each on a line of its own. -/
def enclose (opening closing : String) (level : Nat) (members : List String) : String :=
  if members.isEmpty then opening ++ closing
  else
    opening ++ "\n" ++
      ",\n".intercalate (members.map (indentation (level + 1) ++ ·)) ++
      "\n" ++ indentation level ++ closing

mutual

/-- The text of a document whose first line starts at a given level. -/
def render (level : Nat) : Json → String
  | .null => "null"
  | .boolean value => if value then "true" else "false"
  | .number value => toString value
  | .string value => quote value
  | .array items => enclose "[" "]" level (renderItems level items)
  | .object members => enclose "\x7b" "\x7d" level (renderMembers level members)

def renderItems (level : Nat) : List Json → List String
  | [] => []
  | item :: rest => render (level + 1) item :: renderItems level rest

def renderMembers (level : Nat) : List (String × Json) → List String
  | [] => []
  | (key, value) :: rest =>
    (quote key ++ ": " ++ render (level + 1) value) :: renderMembers level rest

end

/-- A string, or null if there is none. -/
def ofOption : Option String → Json
  | none => .null
  | some value => .string value

def ofRule : DiscoveryRule → Json
  | .marker => .string "marker"
  | .namedMarker => .string "named_marker"
  | .signature => .string "signature"

def ofMessage (message : Message) : Json :=
  .object [("message_name", .string message.name), ("function_name", .string message.function),
    ("param_types", .array (message.parameters.map .string)), ("rule", ofRule message.rule)]

def ofProperty (property : Property) : Json :=
  .object [("name", .string property.name), ("type_name", .string property.type)]

def ofClass (script : ScriptClass) : Json :=
  .object [("class_name", .string script.name), ("header_path", .string script.header.text),
    ("exclude", .boolean script.excluded),
    ("messages", .array (script.messages.map ofMessage)),
    ("properties", .array (script.properties.map ofProperty))]

def ofNotice (notice : SkipNotice) : Json :=
  .object [("path", .string notice.path.text), ("class", ofOption notice.className),
    ("reason", .string notice.reason.message)]

def ofReport (report : ScanReport) : Json :=
  .object [("scripts_root", ofOption (report.scriptsRoot.map Path.text)),
    ("headers_scanned", .number report.headersScanned),
    ("classes", .array (report.records.map ofClass)),
    ("skipped", .array (report.skipped.map ofNotice))]

end Json

end ScriptRegistrar.Report

def ScriptRegistrar.ScanReport.json (report : ScanReport) : String :=
  (Report.Json.ofReport report).render 0
