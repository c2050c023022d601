import ScriptRegistrar.Proofs.ConstructorUpdate
import ScriptRegistrar.Proofs.Printing.HeaderReading

/-!
# Printed classes with constructors

A printed class may start with a constructor.  The search for the constructor of a class passes
over every other printed class: the braces of a printed header open a class, behind a colon and
with no parenthesis, or the constructor of the class they stand in.
-/

namespace ScriptRegistrar.Printing

open Text Text.Cursor Text.Recogniser

/-- A script class that may start with a constructor. -/
structure ConstructedClass where
  model : ClassModel
  /-- The text between the braces of the constructor, if there is one. -/
  inside? : Option (List Char)

/-- The text between the braces of a constructor with given lines. -/
def constructorText (lines : List (List Char)) : List Char :=
  '\n' :: lines.flatMap fun line => line ++ ['\n']

/-- Text between the braces of a constructor that no search of a class body is for. -/
structure IsQuietInside (markers : Markers) (inside : List Char) : Prop where
  ordinary : ∀ word ∈ wordsIn inside, IsOrdinary markers word
  noOpening : '\x7b' ∉ inside
  noClosing : '\x7d' ∉ inside

/-- The lines behind the constructor of a class. -/
def ClassModel.printLines (markers : Markers) (model : ClassModel) : List Char :=
  model.members.flatMap (·.print markers) ++
    if model.suppressed then markers.suppress.toList ++ ['\n'] else []

namespace ConstructedClass

/-- What stands in front of the members. -/
def setup (script : ConstructedClass) : List Char :=
  match script.inside? with
  | none => []
  | some inside =>
    script.model.name.toList ++ ("() ".toList ++ '\x7b' :: (inside ++ '\x7d' :: ['\n']))

/-- The declaration of a class and its constructor. -/
def print (config : Config) (script : ConstructedClass) : List Char :=
  script.model.printWith config script.setup

/-- The declaration of a class up to its closing brace. -/
def printClosed (config : Config) (script : ConstructedClass) : List Char :=
  script.model.printHead config.baseClass ++ '\x7b' :: '\n' ::
    (script.setup ++ (script.model.printLines config.markers ++ ['\x7d']))

theorem print_eq (config : Config) (script : ConstructedClass) :
    script.print config = script.printClosed config ++ ";\n".toList := by
  simp [print, printClosed, ClassModel.printWith, ClassModel.printBody, ClassModel.printLines]

/-- The declarations of some classes. -/
def printAll (config : Config) (scripts : List ConstructedClass) : List Char :=
  scripts.flatMap (·.print config)

/-- Whether a class and its constructor are what they may be. -/
structure WellFormed (markers : Markers) (script : ConstructedClass) : Prop where
  model : script.model.WellFormed markers
  inside : ∀ inside, script.inside? = some inside → IsQuietInside markers inside

/-- Whether a class has a constructor of a given name. -/
def Constructs (name : String) (script : ConstructedClass) : Prop :=
  script.inside?.isSome = true ∧ script.model.name = name

variable {markers : Markers}

theorem setup_of_none {script : ConstructedClass} (none : script.inside? = none) :
    script.setup = [] := by
  rw [setup, none]

theorem setup_of_some {script : ConstructedClass} {inside : List Char}
    (some : script.inside? = some inside) : script.setup = script.model.name.toList ++
      ("() ".toList ++ '\x7b' :: (inside ++ '\x7d' :: ['\n'])) := by
  rw [setup, some]

theorem isQuiet_setup {script : ConstructedClass} (fits : script.WellFormed markers) :
    IsQuiet markers script.setup := by
  cases inside : script.inside? with
  | none =>
      rw [setup_of_none inside]
      exact isQuiet_nil markers
  | some text =>
      rw [setup_of_some inside]
      have quiet := fits.inside text inside
      have name := fits.model.name
      have letters : ∀ character ∈ script.model.name.toList, IsLinePart character :=
        isLinePart_of_isIdentifier name.identifier
      refine ⟨?_, ?_, ?_⟩
      · have parts : script.model.name.toList ++ ("() ".toList ++
            '\x7b' :: (text ++ '\x7d' :: ['\n'])) = script.model.name.toList ++
              '(' :: ')' :: ' ' :: '\x7b' :: (text ++ '\x7d' :: ['\n']) := by simp
        rw [parts, wordsIn_word_append name.isWordText rfl]
        simp (disch := decide) only [wordsIn_cons_of_not_isWord, wordsIn_append_cons, wordsIn_nil,
          List.append_nil]
        intro word member
        rcases List.mem_cons.mp member with rfl | inText
        · exact name.isOrdinary
        · exact quiet.ordinary word inText
      · have reversed : (script.model.name.toList ++ ("() ".toList ++
            '\x7b' :: (text ++ '\x7d' :: ['\n']))).reverse = '\n' :: '\x7d' :: (text.reverse ++
              '\x7b' :: ("() ".toList.reverse ++ script.model.name.toList.reverse)) := by simp
        rw [reversed]
        exact notInWord_cons (by decide)
      · have front : Bracketed.Balanced '\x7b' '\x7d' (script.model.name.toList ++ "() ".toList) := by
          have call : ∀ sign ∈ "() ".toList, sign ∈ typeSigns ∨ sign ∈ lineSigns :=
            List.forall_iff_forall_mem.mp (by decide)
          have parts : ∀ character ∈ script.model.name.toList ++ "() ".toList,
              IsLinePart character := fun character member =>
            (List.mem_append.mp member).elim (letters character)
              (fun sign => Or.inr (call character sign))
          exact .of_not_mem (fun member => not_isLinePart (by decide) (by decide) (parts _ member))
            (fun member => not_isLinePart (by decide) (by decide) (parts _ member))
        rw [← List.append_assoc]
        exact front.append (.group (.of_not_mem quiet.noOpening quiet.noClosing)
          (.of_not_mem (by decide) (by decide)))

theorem noBrace_printLines (legible : markers.Legible) {model : ClassModel}
    (fits : model.WellFormed markers) : '\x7b' ∉ model.printLines markers := by
  intro member
  rcases List.mem_append.mp member with inLines | inToken
  · obtain ⟨line, listed, found⟩ := List.mem_flatMap.mp inLines
    exact not_isLinePart (by decide) (by decide)
      (line.mem_print legible (fits.members line listed) _ found)
  · split at inToken
    · rcases List.mem_append.mp inToken with letter | lineFeed
      · exact not_isLinePart (by decide) (by decide) (isLinePart_of_isIdentifier
          (legible.identifier markers.suppress (by simp [Markers.tokens])) _ letter)
      · exact absurd lineFeed (by decide)
    · cases inToken

/-- The records that a scan finds in printed classes with constructors. -/
theorem scan_printAll {config : Config} (legible : config.markers.Legible)
    (base : isIdentifier config.baseClass.toList = true) (table : SignatureTable) (header : Path)
    {scripts : List ConstructedClass} (fit : ∀ script ∈ scripts, script.WellFormed config.markers) :
    (Scanner.withTable config table).scanHeader (String.ofList (printAll config scripts)) header =
      { records := scripts.map (·.model.recordOf readTypes table header), failure := none } := by
  have scanned := @Scanner.scanFrom_printWith config legible base table header
    (scripts.map fun script => (script.model, script.setup)) ?_ [] [] notInWord_nil notInWord_nil
      (by simp)
  · rw [Scanner.scanHeader, String.toList_ofList, Cursor.start]
    simpa [printAll, print, List.flatMap_map, List.map_map, Function.comp_def] using scanned
  · intro entry member
    obtain ⟨script, listed, rfl⟩ := List.mem_map.mp member
    exact ⟨(fit script listed).model, isQuiet_setup (fit script listed)⟩

end ConstructedClass

end ScriptRegistrar.Printing
