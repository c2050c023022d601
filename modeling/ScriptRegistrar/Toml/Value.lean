/-!
# TOML values

The values of a TOML document, and how keys are set in tables.  A table remembers how it came to
be, because that decides who may add to it: a header opens a table only once, dotted keys go only
through tables that no header opened, and an inline table is complete as it stands.
-/

namespace ScriptRegistrar.Toml

/-- How a table came to be. -/
inductive TableOrigin where
  /-- A header opened it. -/
  | opened
  /-- It lies on the way to a table that a header opened. -/
  | implied
  /-- A dotted key leads through it. -/
  | dotted
  /-- It stands in braces. -/
  | inline
  deriving DecidableEq, Repr

inductive Value where
  | string (value : String)
  | integer (value : Int)
  /-- The magnitude of a number with a fraction or an exponent: `digits` times a power of ten. -/
  | float (digits : Nat) (exponent : Int)
  /-- A number without a magnitude: infinite, or not a number. -/
  | special
  | boolean (value : Bool)
  | dateTime
  /-- A list of values; `ofTables` if its items are tables with headers of their own. -/
  | array (ofTables : Bool) (items : List Value)
  | table (origin : TableOrigin) (entries : List (String × Value))

/-- The keys of a table with their values. -/
abbrev Entries := List (String × Value)

namespace Entries

def find? (entries : Entries) (key : String) : Option Value :=
  (List.find? (·.1 = key) entries).map (·.2)

def erase (entries : Entries) (key : String) : Entries :=
  entries.filter (·.1 ≠ key)

/-- The entries with a value for a key, which takes the place of an older one. -/
def set (entries : Entries) (key : String) (value : Value) : Entries :=
  erase entries key ++ [(key, value)]

/-- Changes the table that a path leads to.  What the path misses is made on the way, as dotted
keys or as a header would make it; `change` is told how the last table came to be.  `none` if the
path leads through a value that may not be added to. -/
def update (byKeys : Bool) (change : TableOrigin → Entries → Option Entries)
    (origin : TableOrigin) (entries : Entries) : List String → Option Entries
  | [] => change origin entries
  | key :: path =>
    match find? entries key with
    | none => do
      let made := if byKeys then TableOrigin.dotted else .implied
      let inner ← update byKeys change made [] path
      some (set entries key (.table made inner))
    | some (.table found inner) => do
      guard (found ≠ .inline)
      guard (!(byKeys && found = .opened))
      let inner ← update byKeys change found inner path
      some (set entries key (.table found inner))
    | some (.array true items) =>
      match items.reverse with
      | .table found inner :: before => do
        let inner ← update byKeys change found inner path
        some (set entries key (.array true (before.reverse ++ [.table found inner])))
      | _ => none
    | some _ => none

/-- Sets the value of a dotted key.  A key has one value, and the last table of a path of several
keys must be one that only dotted keys lead to. -/
def insert (entries : Entries) (path : List String) (key : String) (value : Value) :
    Option Entries :=
  let byKeys := !path.isEmpty
  update byKeys (fun origin inner =>
    if (origin = .dotted) = byKeys && (find? inner key).isNone then
      some (inner ++ [(key, value)])
    else none) .opened entries path

/-- Opens the table of a header: the entries it already has because headers below it came first,
and the document without it. -/
def openTable (root : Entries) (path : List String) (key : String) :
    Option (Entries × Entries) := do
  let root ← update false (fun _ inner => some inner) .opened root path
  let found ← lookup root path
  match find? found key with
  | none => some ([], root)
  | some (.table .implied inner) => do
    let without ← update false (fun _ entries => some (erase entries key)) .opened root path
    some (inner, without)
  | some _ => none
where
  /-- The table that a path leads to. -/
  lookup (entries : Entries) : List String → Option Entries
    | [] => some entries
    | key :: path =>
      match find? entries key with
      | some (.table _ inner) => lookup inner path
      | some (.array true items) =>
        match items.getLast? with
        | some (.table _ inner) => lookup inner path
        | _ => none
      | _ => none

/-- Puts the finished table of a header into the document. -/
def closeTable (root : Entries) (path : List String) (key : String) (table : Entries) :
    Option Entries :=
  update false (fun _ entries => some (set entries key (.table .opened table))) .opened root path

/-- Adds a finished table to the array that a doubled header names. -/
def closeItem (root : Entries) (path : List String) (key : String) (table : Entries) :
    Option Entries :=
  update false (fun _ entries =>
    match find? entries key with
    | none => some (set entries key (.array true [.table .opened table]))
    | some (.array true items) =>
      some (set entries key (.array true (items ++ [.table .opened table])))
    | some _ => none) .opened root path

end Entries

end ScriptRegistrar.Toml
