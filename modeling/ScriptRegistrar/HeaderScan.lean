import ScriptRegistrar.ClassBody
import ScriptRegistrar.ClassHead
import ScriptRegistrar.Members

/-!
# Scanning a header

The classes of a header are found one after the other; the search goes on behind each body.  A
class whose body cannot be read ends the scan, and what was found before it is kept.
-/

namespace ScriptRegistrar

open Text

structure HeaderScan where
  /-- One record for each class, in text order. -/
  records : List ScriptClass := []
  /-- Why the scan ended before the end of the header. -/
  failure : Option ScanFailure := none
  deriving DecidableEq, Repr

/-- What a scan looks for. -/
structure Scanner where
  /-- The base class of all script classes. -/
  baseClass : String
  markers : Markers
  table : SignatureTable
  deriving DecidableEq, Repr

namespace Scanner

/-- A scanner with a signature table of its own. -/
def withTable (config : Config) (table : SignatureTable) : Scanner :=
  ⟨config.baseClass, config.markers, table⟩

def ofConfig (config : Config) : Scanner :=
  withTable config config.signatureTable

/-- The record of a class with a given body. -/
def record (scanner : Scanner) (header : Path) (name : String) (body : List Char) :
    ScriptClass :=
  let members := Members.scan scanner.markers scanner.table body
  { name, header, excluded := members.suppressed, messages := members.messages
    properties := members.properties }

def scanFrom (scanner : Scanner) (header : Path) (cursor : Cursor) : HeaderScan :=
  match ClassHead.next? scanner.baseClass cursor with
  | none => {}
  | some (head, behindHead) =>
    match ClassBody.after head.name behindHead with
    | .error failure => { failure := some failure }
    | .ok body =>
      let first := scanner.record header head.name body.text
      if body.behind.ahead.length < cursor.ahead.length then
        let others := scanFrom scanner header body.behind
        { others with records := first :: others.records }
      else { records := [first] }
termination_by cursor.ahead.length

/-- Scans the text of a header for every script class it declares. -/
def scanHeader (scanner : Scanner) (text : String) (header : Path) : HeaderScan :=
  scanFrom scanner header (Cursor.start text.toList)

end Scanner

end ScriptRegistrar
