import ScriptRegistrar.Config.Validation
import ScriptRegistrar.ParameterList

/-!
# Types to print

A type of a declaration as a value: a path of names, template arguments that are types again, a
leading `const` and reference and pointer signs behind.  `TypeModel.print` writes it the way a
header does.  Names are identifiers without a meaning of their own, neither a keyword nor a
marker; the words of a type may be the builtin ones besides.
-/

namespace ScriptRegistrar

open Text

def Markers.tokens (markers : Markers) : List String :=
  [markers.message, markers.namedMessage, markers.property, markers.suppress]

namespace Printing

/-- The keywords of C++. -/
def keywords : List String :=
  ["alignas", "alignof", "and", "and_eq", "asm", "auto", "bitand", "bitor", "bool", "break", "case",
    "catch", "char", "char8_t", "char16_t", "char32_t", "class", "compl", "concept", "const",
    "consteval", "constexpr", "constinit", "const_cast", "continue", "co_await", "co_return",
    "co_yield", "decltype", "default", "delete", "do", "double", "dynamic_cast", "else", "enum",
    "explicit", "export", "extern", "false", "float", "for", "friend", "goto", "if", "inline",
    "int", "long", "mutable", "namespace", "new", "noexcept", "not", "not_eq", "nullptr",
    "operator", "or", "or_eq", "private", "protected", "public", "register", "reinterpret_cast",
    "requires", "return", "short", "signed", "sizeof", "static", "static_assert", "static_cast",
    "struct", "switch", "template", "this", "thread_local", "throw", "true", "try", "typedef",
    "typeid", "typename", "union", "unsigned", "using", "virtual", "void", "volatile", "wchar_t",
    "while", "xor", "xor_eq"]

/-- The keywords that may stand in a type: the builtin type words other than `void`. -/
def typeKeywords : List String :=
  ["bool", "char", "char8_t", "char16_t", "char32_t", "double", "float", "int", "long", "short",
    "signed", "unsigned", "wchar_t"]

/-- What a declaration may name something, beside given markers. -/
structure IsName (markers : Markers) (name : String) : Prop where
  identifier : isIdentifier name.toList = true
  notKeyword : name ∉ keywords
  notSpecifier : name ∉ ["final", "override"]
  notMarker : name ∉ markers.tokens

/-- What the path of a type may name, beside given markers. -/
structure IsTypeName (markers : Markers) (name : String) : Prop where
  identifier : isIdentifier name.toList = true
  keyword : name ∈ keywords → name ∈ typeKeywords
  notSpecifier : name ∉ ["final", "override"]
  notMarker : name ∉ markers.tokens

/-- A sign behind a type. -/
inductive ReferenceSign where
  | reference
  | pointer
  deriving DecidableEq, Repr

def ReferenceSign.character : ReferenceSign → Char
  | .reference => '&'
  | .pointer => '*'

/-- A type as it is declared. -/
inductive TypeModel where
  /-- A name, the names that lead on from it, and template arguments if there are any, with
  spaces behind their commas or without. -/
  | named (isConst : Bool) (name : String) (inner : List String) (spaced : Bool)
      (arguments : List TypeModel) (signs : List ReferenceSign)

namespace TypeModel

/-- The names on a path. -/
def printPath (name : String) (inner : List String) : List Char :=
  name.toList ++ inner.flatMap fun next => "::".toList ++ next.toList

mutual

/-- A type as a header writes it. -/
def print : TypeModel → List Char
  | .named isConst name inner spaced arguments signs =>
    (if isConst then "const ".toList else []) ++ (printPath name inner ++
      (printArguments spaced arguments ++ signs.map ReferenceSign.character))

/-- Template arguments between angle brackets; nothing if there are none. -/
def printArguments (spaced : Bool) : List TypeModel → List Char
  | [] => []
  | argument :: rest => '<' :: (argument.print ++ (printFurther spaced rest ++ ['>']))

/-- The template arguments behind the first one. -/
def printFurther (spaced : Bool) : List TypeModel → List Char
  | [] => []
  | argument :: rest =>
    ',' :: ((if spaced then [' '] else []) ++ (argument.print ++ printFurther spaced rest))

end

mutual

/-- Whether all names of a type are what they may be. -/
def WellFormed (markers : Markers) : TypeModel → Prop
  | .named _ name inner _ arguments _ =>
    IsTypeName markers name ∧ (∀ next ∈ inner, IsTypeName markers next) ∧
      AllWellFormed markers arguments

/-- List counterpart of `WellFormed`. -/
def AllWellFormed (markers : Markers) : List TypeModel → Prop
  | [] => True
  | argument :: rest => argument.WellFormed markers ∧ AllWellFormed markers rest

end

end TypeModel

end Printing

end ScriptRegistrar
