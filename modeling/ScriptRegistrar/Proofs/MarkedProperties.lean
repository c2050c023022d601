import ScriptRegistrar.Proofs.PropertyRecognition
import ScriptRegistrar.Proofs.Text.Occurrences

/-!
# Marked data members

A data member is declared as a type and one declarator or more, each with an initializer or
without.  Behind a marker all declared members are properties of that type only if the declaration
is a plain one: a single name, which is no array, behind a type that is written with words, blanks
and the signs of template arguments, references and qualified names.
-/

namespace ScriptRegistrar.DataMember

open Text Text.Cursor Text.Recogniser PropertyDeclaration

inductive Initializer where
  | absent
  | equals (value : List Char)
  | braces (inside : List Char)

def Initializer.print : Initializer → List Char
  | absent => []
  | equals value => '=' :: value
  | braces inside => '\x7b' :: (inside ++ ['\x7d'])

/-- A declared name with the reference and pointer signs in front of it, and what stands behind it:
the sizes of an array and an initializer. -/
structure Declarator where
  lead : List Char
  name : List Char
  gap : List Char
  array : List Char
  initializer : Initializer
  behind : List Char
  isLead : ∀ character ∈ lead,
    isBlank character = true ∨ TypeText.isReferenceSign character = true
  isName : IsWordText name
  blank : ∀ character ∈ gap ++ behind, isBlank character = true
  isArray : array = [] ∨ array.head? = some '['

namespace Declarator

def printEnd (declarator : Declarator) : List Char :=
  declarator.array ++ (declarator.initializer.print ++ declarator.behind)

def print (declarator : Declarator) : List Char :=
  declarator.lead ++ (declarator.name ++ (declarator.gap ++ declarator.printEnd))

end Declarator

/-- The text of a declaration, from its type to its semicolon. -/
def printDeclared (type : List Char) (declarators : List Declarator) : List Char :=
  type ++ ([','].intercalate (declarators.map Declarator.print) ++ [';'])

/-- Whether a closing brace stands behind every opening one of a text. -/
def ClosesBraces : List Char → Prop
  | [] => True
  | next :: rest => (next = '\x7b' → '\x7d' ∈ rest) ∧ ClosesBraces rest

instance decidableClosesBraces : (text : List Char) → Decidable (ClosesBraces text)
  | [] => isTrue trivial
  | _ :: rest =>
    have := decidableClosesBraces rest
    inferInstanceAs (Decidable (_ ∧ _))

/-- A marked declaration of one member or more.  A blank or a sign stands between its type and the
first name, and it closes its braces. -/
structure Declaration where
  beforeCall : List Char
  inCall : List Char
  behindCall : List Char
  type : List Char
  first : Declarator
  others : List Declarator
  blank : ∀ character ∈ beforeCall ++ (inCall ++ behindCall), isBlank character = true
  isType : type ≠ [] ∧ type.head?.any isBlank = false
  apart : (type ++ first.lead).getLast?.any isWord = false
  closed : ClosesBraces (printDeclared type (first :: others))

namespace Declaration

def declared (declaration : Declaration) : List Char :=
  printDeclared declaration.type (declaration.first :: declaration.others)

/-- The marker with its parentheses. -/
def call (marker : List Char) (declaration : Declaration) : List Char :=
  marker ++ (declaration.beforeCall ++ '(' :: (declaration.inCall ++ ')' :: declaration.behindCall))

def print (marker : List Char) (declaration : Declaration) : List Char :=
  declaration.call marker ++ declaration.declared

/-- The declared members. -/
def properties (declaration : Declaration) : List Property :=
  (declaration.first :: declaration.others).map fun declarator =>
    ⟨String.ofList declarator.name, TypeText.normalize (String.ofList declaration.type)⟩

end Declaration

/-- Whether a semicolon stands right behind the first closing brace of an initializer in braces. -/
def Initializer.EndsAtOnce (behind : List Char) : Initializer → Prop
  | braces inside => ∃ before later, '\x7d' ∉ before ∧
      inside ++ '\x7d' :: (behind ++ [';']) = before ++ '\x7d' :: ';' :: later
  | _ => True

/-- A declaration of one member that is no array, with a type of type characters. -/
structure Declaration.IsPlain (declaration : Declaration) : Prop where
  single : declaration.others = []
  scalar : declaration.first.array = []
  ends : declaration.first.initializer.EndsAtOnce declaration.first.behind
  chars : ∀ character ∈ declaration.type, isTypeChar character = true
  starts : declaration.type.head?.any isIdentifierStart = true

theorem exists_append_of_mem {whole rest left right : List Char} {sign : Char}
    (shape : whole ++ rest = left ++ right) (present : sign ∈ whole) (absent : sign ∉ left) :
    ∃ later, whole = left ++ later ∧ right = later ++ rest ∧ sign ∈ later := by
  rcases List.append_eq_append_iff.mp shape with ⟨more, rfl, _⟩ | ⟨later, rfl, equality⟩
  · exact (absent (List.mem_append_left _ present)).elim
  · exact ⟨later, rfl, equality, (List.mem_append.mp present).resolve_left absent⟩

theorem ClosesBraces.closing_mem {before behind : List Char}
    (closes : ClosesBraces (before ++ '\x7b' :: behind)) : '\x7d' ∈ behind := by
  induction before with
  | nil => exact closes.1 rfl
  | cons next rest induction => exact induction closes.2

theorem exists_cons_of_mem {whole rest right : List Char} {next sign : Char}
    (shape : next :: right = whole ++ rest) (present : sign ∈ whole) :
    ∃ later, whole = next :: later ∧ right = later ++ rest := by
  cases whole with
  | nil => cases present
  | cons first later =>
      obtain ⟨rfl, equality⟩ := List.cons.inj shape
      exact ⟨later, rfl, equality⟩

section

variable {declared rest chars value later : List Char} (ends : declared.getLast? = some ';')
  (closed : ClosesBraces declared)
  (areChars : ∀ character ∈ chars, isTypeChar character = true) (isValue : IsValue value)
  (shape : declared ++ rest = chars ++ (value ++ ';' :: later))

include ends closed areChars isValue shape

theorem exists_behind : ∃ behind, declared = chars ++ (value ++ ';' :: behind) ∧
    later = behind ++ rest := by
  have semicolon : ';' ∈ declared := List.mem_of_getLast? ends
  have notInChars : ∀ sign, isTypeChar sign = false → sign ∉ chars := fun sign noChar member => by
    rw [areChars sign member] at noChar
    exact Bool.noConfusion noChar
  obtain ⟨behindChars, rfl, fromChars, semicolon⟩ :=
    exists_append_of_mem shape semicolon (notInChars ';' rfl)
  cases isValue with
  | none =>
      obtain ⟨behind, rfl, further⟩ := exists_cons_of_mem fromChars semicolon
      exact ⟨behind, rfl, further⟩
  | @equals text absent =>
      obtain ⟨behindValue, rfl, fromValue, semicolon⟩ :=
        exists_append_of_mem fromChars.symm semicolon (show ';' ∉ '=' :: text by simpa using absent)
      obtain ⟨behind, rfl, further⟩ := exists_cons_of_mem fromValue semicolon
      exact ⟨behind, rfl, further⟩
  | @braces inside absent =>
      obtain ⟨behindBrace, rfl, fromBrace⟩ := exists_cons_of_mem fromChars semicolon
      have split : behindBrace ++ rest = inside ++ '\x7d' :: ';' :: later := by
        simpa using fromBrace.symm
      obtain ⟨fromClosing, rfl, closing, brace⟩ :=
        exists_append_of_mem split closed.closing_mem absent
      obtain ⟨behindValue, rfl, fromValue⟩ := exists_cons_of_mem closing brace
      cases behindValue with
      | nil =>
          rw [← List.cons_append, ← List.append_assoc, List.getLast?_concat] at ends
          cases ends
      | cons next behind =>
          obtain ⟨rfl, further⟩ := List.cons.inj fromValue
          exact ⟨behind, by simp, further⟩

end

theorem mem_iff_of_normalForm_eq {left right : List Char}
    (same : TypeText.normalForm left = TypeText.normalForm right) {character : Char}
    (noChar : isTypeChar character = false) : character ∈ left ↔ character ∈ right := by
  have shows : ∀ other, decide (other = character) = true → isBlank other = false ∧
      isIdentifierChar other = false ∧ TypeText.isReferenceSign other = false := by
    intro other isOther
    obtain rfl := of_decide_eq_true isOther
    refine ⟨?_, ?_, ?_⟩
    · exact Bool.eq_false_iff.mpr fun blank => by simp [isTypeChar_of_isBlank blank] at noChar
    · exact Bool.eq_false_iff.mpr fun letter => by
        simp [isTypeChar_of_isWord (isWord_of_isIdentifierChar letter)] at noChar
    · refine Bool.eq_false_iff.mpr fun sign => ?_
      rcases TypeText.isReferenceSign_iff.mp sign with rfl | rfl <;> exact Bool.noConfusion noChar
  have filtered := (TypeText.filter_normalForm shows left).symm.trans
    ((congrArg _ same).trans (TypeText.filter_normalForm shows right))
  have listed : ∀ text : List Char, character ∈ text ↔
      character ∈ text.filter fun other => decide (other = character) := by
    simp
  rw [listed, filtered, ← listed]

namespace Declarator

variable (declarator : Declarator)

/-- The text in front of what ends a declarator. -/
def front : List Char :=
  declarator.lead ++ (declarator.name ++ declarator.gap)

theorem isTypeChar_of_mem_front {character : Char} (member : character ∈ declarator.front) :
    isTypeChar character = true := by
  simp only [front, List.mem_append] at member
  rcases member with inLead | inName | inGap
  · rcases declarator.isLead character inLead with blank | sign
    · exact isTypeChar_of_isBlank blank
    · rcases TypeText.isReferenceSign_iff.mp sign with rfl | rfl <;> rfl
  · exact isTypeChar_of_isWord (declarator.isName.2 character inName)
  · exact isTypeChar_of_isBlank (declarator.blank character (List.mem_append_left _ inGap))

theorem print_eq : declarator.print = declarator.front ++ declarator.printEnd := by
  simp [print, front]

theorem ends_of_isValue {value behind : List Char} (isValue : IsValue value)
    (shape : (declarator.printEnd ++ [';']).dropWhile isTypeChar = value ++ ';' :: behind) :
    declarator.array = [] ∧ declarator.initializer.EndsAtOnce declarator.behind := by
  have scalar : declarator.array = [] := by
    refine declarator.isArray.resolve_right fun bracket => ?_
    obtain ⟨sizes, brackets⟩ := List.head?_eq_some_iff.mp bracket
    have stops : isTypeChar '[' = false := rfl
    rw [printEnd, brackets, List.cons_append, List.cons_append, List.dropWhile_cons_of_neg
      (by simp [stops])] at shape
    cases isValue <;> cases shape
  refine ⟨scalar, ?_⟩
  rw [printEnd, scalar, List.nil_append] at shape
  cases initializer : declarator.initializer with
  | absent => trivial
  | equals _ => trivial
  | braces inside =>
      have stops : isTypeChar '\x7b' = false := rfl
      rw [initializer, Initializer.print, List.cons_append, List.cons_append,
        List.dropWhile_cons_of_neg (by simp [stops])] at shape
      cases isValue with
      | none => cases shape
      | equals _ => cases shape
      | @braces before absent =>
          obtain ⟨_, further⟩ := List.cons.inj shape
          exact ⟨before, behind, absent, by simpa using further⟩

theorem exists_readEnd? (scalar : declarator.array = [])
    (ends : declarator.initializer.EndsAtOnce declarator.behind) (passed rest : List Char) :
    ∃ next, readEnd? ⟨passed, declarator.gap ++ (declarator.printEnd ++ ';' :: rest)⟩ =
      some next := by
  obtain ⟨blankGap, _⟩ := List.forall_mem_append.mp declarator.blank
  rw [printEnd, scalar, List.nil_append]
  cases initializer : declarator.initializer with
  | absent =>
      have read := @readEnd?_append (declarator.gap ++ declarator.behind) [] declarator.blank .none
        passed rest
      simp only [List.append_assoc, List.nil_append] at read
      exact ⟨_, read⟩
  | equals text =>
      have semicolon : ';' ∈ text ++ (declarator.behind ++ ';' :: rest) := by simp
      obtain ⟨value, later, shape, absent⟩ := List.eq_append_cons_of_mem semicolon
      have read := @readEnd?_append declarator.gap _ blankGap (.equals absent) passed later
      rw [List.cons_append, ← shape] at read
      exact ⟨_, by simpa [Initializer.print] using read⟩
  | braces inside =>
      rw [initializer] at ends
      obtain ⟨before, later, absent, shape⟩ := ends
      have read := @readEnd?_append declarator.gap _ blankGap (.braces absent) passed (later ++ rest)
      have whole : '\x7b' :: (before ++ ['\x7d']) ++ ';' :: (later ++ rest) =
          '\x7b' :: (inside ++ '\x7d' :: (declarator.behind ++ [';'])) ++ rest := by
        rw [shape]
        simp
      rw [whole] at read
      exact ⟨_, by simpa [Initializer.print] using read⟩

theorem stops_behind_name (scalar : declarator.array = []) (rest : List Char) :
    (declarator.gap ++ (declarator.printEnd ++ ';' :: rest)).head?.any isWord = false := by
  obtain ⟨blankGap, blankBehind⟩ := List.forall_mem_append.mp declarator.blank
  have ofBlanks : ∀ {blanks : List Char} {next : Char} {later : List Char},
      (∀ character ∈ blanks, isBlank character = true) → isWord next = false →
        (blanks ++ next :: later).head?.any isWord = false := by
    intro blanks next later blank separates
    cases blanks with
    | nil => exact separates
    | cons first _ => exact isWord_of_isBlank (blank first List.mem_cons_self)
  rw [printEnd, scalar, List.nil_append]
  cases declarator.initializer with
  | absent =>
      rw [Initializer.print, List.nil_append, ← List.append_assoc]
      exact ofBlanks declarator.blank rfl
  | equals value => exact ofBlanks blankGap rfl
  | braces inside => exact ofBlanks blankGap rfl

end Declarator

namespace Declaration

variable (declaration : Declaration)

@[simp] theorem getLast?_declared : declaration.declared.getLast? = some ';' := by
  rw [declared, printDeclared, ← List.append_assoc, List.getLast?_concat]

theorem declared_of_single (single : declaration.others = []) : declaration.declared =
    declaration.type ++ declaration.first.front ++ (declaration.first.printEnd ++ [';']) := by
  rw [declared, printDeclared, single, List.map_singleton, List.intercalate_singleton,
    Declarator.print_eq]
  simp

theorem head?_declared_append (rest : List Char) :
    (declaration.declared ++ rest).head? = declaration.type.head? := by
  obtain ⟨first, others, shape⟩ := List.exists_cons_of_ne_nil declaration.isType.1
  rw [declared, printDeclared, shape]
  rfl

theorem readDeclared?_of_isPlain (isPlain : declaration.IsPlain) (passed rest : List Char) :
    ∃ next, readDeclared? ⟨passed, declaration.declared ++ rest⟩ = some
      (⟨String.ofList declaration.first.name,
        TypeText.normalize (String.ofList declaration.type)⟩, next) := by
  have chars : ∀ character ∈ declaration.type ++ declaration.first.lead,
      isTypeChar character = true :=
    List.forall_mem_append.mpr ⟨isPlain.chars, fun character member =>
      declaration.first.isTypeChar_of_mem_front (List.mem_append_left _ member)⟩
  have starts : (declaration.type ++ declaration.first.lead).head?.any isIdentifierStart = true := by
    obtain ⟨first, others, shape⟩ := List.exists_cons_of_ne_nil declaration.isType.1
    have starts := isPlain.starts
    rw [shape] at starts ⊢
    exact starts
  have outside : NotInWord (declaration.type ++ declaration.first.lead).reverse := by
    rw [NotInWord, List.head?_reverse]
    exact declaration.apart
  obtain ⟨next, ends⟩ := declaration.first.exists_readEnd? isPlain.scalar isPlain.ends
    (declaration.first.name.reverse ++
      ((declaration.type ++ declaration.first.lead).reverse ++ passed)) rest
  have read := readDeclared?_name chars starts outside declaration.first.isName
    (declaration.first.stops_behind_name isPlain.scalar rest) ends
  rw [TypeText.normalForm_append_of_blank_or_sign _ declaration.first.isLead] at read
  refine ⟨next, ?_⟩
  rw [declaration.declared_of_single isPlain.single, Declarator.front, TypeText.normalize,
    String.toList_ofList, ← read]
  simp

/-- What is read of a declaration is no more than the declaration, and consists of type characters
up to an initializer or the semicolon. -/
theorem value_of_readDeclared? {passed rest : List Char} {property : Property} {next : Cursor}
    (reads : readDeclared? ⟨passed, declaration.declared ++ rest⟩ = some (property, next)) :
    ∃ chars value behind type, (∀ character ∈ chars, isTypeChar character = true) ∧
      IsValue value ∧ declaration.declared = chars ++ (value ++ ';' :: behind) ∧
        next = ⟨(chars ++ (value ++ [';'])).reverse ++ passed, behind ++ rest⟩ ∧ type ⊆ chars ∧
          property.type = String.ofList (TypeText.normalForm type) := by
  obtain ⟨_, chars, value, type, areChars, isValue, ⟨ahead, back⟩, listed, typed⟩ :=
    PropertyDeclaration.value_of_readDeclared? reads
  obtain ⟨nextPassed, nextAhead⟩ := next
  have shape : declaration.declared ++ rest = chars ++ (value ++ ';' :: nextAhead) := by
    simpa using ahead
  obtain ⟨behind, parts, rfl⟩ := exists_behind declaration.getLast?_declared declaration.closed
    areChars isValue shape
  exact ⟨chars, value, behind, type, areChars, isValue, parts, by rw [← back], listed, typed⟩

/-- A type that is read as the declared one has no other characters than type characters, and so
the declaration is plain. -/
theorem isPlain_of_read {passed rest : List Char} {property : Property} {next : Cursor}
    (reads : readDeclared? ⟨passed, declaration.declared ++ rest⟩ = some (property, next))
    (single : declaration.others = [])
    (sameType : property.type = TypeText.normalize (String.ofList declaration.type)) :
    declaration.IsPlain := by
  have starts := (PropertyDeclaration.value_of_readDeclared? reads).1
  rw [declaration.head?_declared_append rest] at starts
  obtain ⟨chars, value, behind, type, areChars, isValue, parts, _, listed, typed⟩ :=
    declaration.value_of_readDeclared? reads
  have typeChars : ∀ character ∈ declaration.type, isTypeChar character = true := by
    have sameForm : TypeText.normalForm type = TypeText.normalForm declaration.type := by
      rw [typed, TypeText.normalize, String.toList_ofList, String.ofList_inj] at sameType
      exact sameType
    intro character member
    by_contra noChar
    rw [Bool.not_eq_true] at noChar
    have inChars := listed ((mem_iff_of_normalForm_eq sameForm noChar).mpr member)
    rw [areChars character inChars] at noChar
    exact Bool.noConfusion noChar
  have front : ∀ character ∈ declaration.type ++ declaration.first.front,
      isTypeChar character = true :=
    List.forall_mem_append.mpr
      ⟨typeChars, fun _ member => declaration.first.isTypeChar_of_mem_front member⟩
  have tail : (declaration.first.printEnd ++ [';']).dropWhile isTypeChar = value ++ ';' :: behind := by
    have whole := congrArg (List.dropWhile isTypeChar) parts
    rw [declaration.declared_of_single single, List.dropWhile_append_of_pos front,
      dropWhile_append_of_stops areChars (isValue.head?_any_isTypeChar behind)] at whole
    exact whole
  obtain ⟨scalar, ends⟩ := declaration.first.ends_of_isValue isValue tail
  exact ⟨single, scalar, ends, typeChars, starts⟩

theorem properties_eq_iff (passed rest : List Char) :
    ((readDeclared? ⟨passed, declaration.declared ++ rest⟩).map Prod.fst).toList =
      declaration.properties ↔ declaration.IsPlain := by
  constructor
  · intro same
    cases reads : readDeclared? ⟨passed, declaration.declared ++ rest⟩ with
    | none =>
        rw [reads] at same
        cases same
    | some found =>
        obtain ⟨property, next⟩ := found
        rw [reads, properties, List.map_cons] at same
        obtain ⟨isFirst, noOthers⟩ := List.cons.inj same
        have single : declaration.others = [] := List.map_eq_nil_iff.mp noOthers.symm
        exact declaration.isPlain_of_read reads single (congrArg Property.type isFirst)
  · intro isPlain
    obtain ⟨next, reads⟩ := declaration.readDeclared?_of_isPlain isPlain passed rest
    rw [reads, properties, isPlain.single]
    rfl

end Declaration

/-- Whether the marker is called nowhere in a stretch of a body. -/
def Unmarked (marker passed : List Char) : List Char → List Char → Prop
  | [], _ => True
  | next :: later, rest =>
    readCall? marker ⟨passed, next :: (later ++ rest)⟩ = none ∧
      Unmarked marker (next :: passed) later rest

instance decidableUnmarked (marker passed : List Char) :
    (stretch rest : List Char) → Decidable (Unmarked marker passed stretch rest)
  | [], _ => isTrue trivial
  | next :: later, rest =>
    have := decidableUnmarked marker (next :: passed) later rest
    inferInstanceAs (Decidable (_ ∧ _))

/-- Whether every call of the marker in the rest of a body stands in front of one of some
declarations, which are those of the body in its order. -/
inductive Declares (marker : List Char) : List Char → List Char → List Declaration → Prop where
  | done {passed : List Char} : Declares marker passed [] []
  | other {passed stretch rest : List Char} {declarations : List Declaration}
      (unmarked : Unmarked marker passed stretch rest)
      (further : Declares marker (stretch.reverse ++ passed) rest declarations) :
      Declares marker passed (stretch ++ rest) declarations
  | declared {passed rest : List Char} {declaration : Declaration}
      {declarations : List Declaration}
      (boundary : (Cursor.mk passed (declaration.print marker ++ rest)).isBoundary = true)
      (unmarked : Unmarked marker ((declaration.print marker).take 1 ++ passed)
        ((declaration.print marker).drop 1) rest)
      (further : Declares marker ((declaration.print marker).reverse ++ passed) rest declarations) :
      Declares marker passed (declaration.print marker ++ rest) (declaration :: declarations)

variable {marker passed : List Char}

theorem Unmarked.append {left right rest : List Char} :
    Unmarked marker passed (left ++ right) rest ↔
      Unmarked marker passed left (right ++ rest) ∧
        Unmarked marker (left.reverse ++ passed) right rest := by
  induction left generalizing passed with
  | nil => simp [Unmarked]
  | cons next later induction => simp [Unmarked, induction, and_assoc]

theorem Unmarked.behind {text left right rest : List Char}
    (unmarked : Unmarked marker (text.take 1 ++ passed) (text.drop 1) rest)
    (split : text = left ++ right) (nonempty : left ≠ []) :
    Unmarked marker (left.reverse ++ passed) right rest := by
  obtain ⟨first, later, rfl⟩ := List.exists_cons_of_ne_nil nonempty
  subst split
  have both : Unmarked marker (first :: passed) (later ++ right) rest := unmarked
  simpa using (Unmarked.append.mp both).2

theorem read?_of_readCall? {cursor : Cursor} (uncalled : readCall? marker cursor = none) :
    read? marker cursor = none := by
  rw [read?_eq, uncalled, Option.bind_none]

theorem Unmarked.firstFrom?_append {stretch rest : List Char} (unmarked : Unmarked marker passed stretch rest) :
    firstFrom? (read? marker) passed (stretch ++ rest) =
      firstFrom? (read? marker) (stretch.reverse ++ passed) rest := by
  induction stretch generalizing passed with
  | nil => rfl
  | cons next later induction =>
      obtain ⟨uncalled, further⟩ := unmarked
      rw [List.cons_append, firstFrom?, read?_of_readCall? uncalled, List.reverse_cons,
        List.append_assoc]
      exact induction further

theorem Unmarked.occurrences_append {stretch rest : List Char} (unmarked : Unmarked marker passed stretch rest) :
    occurrences (read? marker) ⟨passed, stretch ++ rest⟩ =
      occurrences (read? marker) ⟨stretch.reverse ++ passed, rest⟩ :=
  occurrences_eq_of_first?_eq (advances_read? marker) unmarked.firstFrom?_append

/-- At a marked declaration its own text is read. -/
theorem Declaration.read?_print (declaration : Declaration) {rest : List Char}
    (boundary : (Cursor.mk passed (declaration.print marker ++ rest)).isBoundary = true) :
    read? marker ⟨passed, declaration.print marker ++ rest⟩ =
      readDeclared? ⟨(declaration.call marker).reverse ++ passed, declaration.declared ++ rest⟩ := by
  obtain ⟨blankBefore, blankBehind⟩ := List.forall_mem_append.mp declaration.blank
  obtain ⟨blankIn, blankBehind⟩ := List.forall_mem_append.mp blankBehind
  have shape : declaration.print marker ++ rest = marker ++ (declaration.beforeCall ++ '(' ::
      (declaration.inCall ++ ')' :: (declaration.behindCall ++ (declaration.declared ++ rest)))) := by
    simp [print, call]
  have opens : ∀ passed ahead : List Char, (Cursor.mk passed ('(' :: ahead)).sign? "(" =
      some ⟨'(' :: passed, ahead⟩ := fun passed => literal?_append passed "(".toList
  have closes : ∀ passed ahead : List Char, (Cursor.mk passed (')' :: ahead)).sign? ")" =
      some ⟨')' :: passed, ahead⟩ := fun passed => literal?_append passed ")".toList
  have start : (declaration.declared ++ rest).head?.any isBlank = false := by
    rw [declaration.head?_declared_append]
    exact declaration.isType.2
  rw [shape] at boundary ⊢
  simp only [read?_eq, readCall?, boundary, guard, if_true, Option.bind_eq_bind, Option.pure_def,
    Option.bind_some, literal?_append, passBlanks, opens, closes,
    passWhile_append blankBefore (show ('(' :: _).head?.any isBlank = false from rfl),
    passWhile_append blankIn (show (')' :: _).head?.any isBlank = false from rfl),
    passWhile_append blankBehind start]
  simp [call]

/-- A search for properties takes what is read at a marked declaration and goes on behind it. -/
theorem Declaration.occurrences_print (declaration : Declaration) {rest : List Char}
    (boundary : (Cursor.mk passed (declaration.print marker ++ rest)).isBoundary = true)
    (unmarked : Unmarked marker ((declaration.print marker).take 1 ++ passed)
      ((declaration.print marker).drop 1) rest) :
    occurrences (read? marker) ⟨passed, declaration.print marker ++ rest⟩ =
      ((readDeclared? ⟨(declaration.call marker).reverse ++ passed,
          declaration.declared ++ rest⟩).map Prod.fst).toList ++
        occurrences (read? marker) ⟨(declaration.print marker).reverse ++ passed, rest⟩ := by
  have reads := declaration.read?_print boundary
  cases found : readDeclared? ⟨(declaration.call marker).reverse ++ passed,
      declaration.declared ++ rest⟩ with
  | none =>
      rw [found] at reads
      have nonempty : declaration.print marker ≠ [] := by
        simp [print, call]
      obtain ⟨first, later, shape⟩ := List.exists_cons_of_ne_nil nonempty
      rw [shape] at reads unmarked ⊢
      refine occurrences_eq_of_first?_eq (advances_read? marker) ?_
      have behindFirst : firstFrom? (read? marker) passed (first :: later ++ rest) =
          firstFrom? (read? marker) (first :: passed) (later ++ rest) := by
        rw [List.cons_append] at reads ⊢
        rw [firstFrom?, reads]
      have behindAll : firstFrom? (read? marker) (first :: passed) (later ++ rest) =
          firstFrom? (read? marker) (later.reverse ++ first :: passed) rest :=
        unmarked.firstFrom?_append
      rw [first?, first?, behindFirst, behindAll]
      simp
  | some result =>
      obtain ⟨property, next⟩ := result
      rw [found] at reads
      obtain ⟨chars, value, behind, _, _, _, parts, rfl, _⟩ :=
        declaration.value_of_readDeclared? found
      have split : declaration.print marker =
          (declaration.call marker ++ (chars ++ (value ++ [';']))) ++ behind := by
        simp [print, parts]
      have unmarkedBehind := unmarked.behind split (by simp)
      rw [List.reverse_append, List.append_assoc] at unmarkedBehind
      rw [occurrences_of_read (advances_read? marker) reads, unmarkedBehind.occurrences_append, split]
      simp

theorem length_le_length_flatMap_properties (declarations : List Declaration) :
    declarations.length ≤ (declarations.flatMap Declaration.properties).length := by
  induction declarations with
  | nil => exact Nat.le_refl 0
  | cons declaration others induction =>
      rw [List.flatMap_cons, List.length_append, List.length_cons]
      have one : 1 ≤ declaration.properties.length := by
        simp [Declaration.properties]
      omega

/-- The properties found are the declared members exactly if all declarations are plain.  For no
declaration is more than one property found. -/
theorem Declares.properties_eq_iff {body : List Char} {declarations : List Declaration}
    (declares : Declares marker passed body declarations) :
    (occurrences (read? marker) ⟨passed, body⟩).length ≤ declarations.length ∧
      (occurrences (read? marker) ⟨passed, body⟩ = declarations.flatMap Declaration.properties ↔
        ∀ declaration ∈ declarations, declaration.IsPlain) := by
  induction declares with
  | @done passed =>
      have nothing : occurrences (read? marker) ⟨passed, []⟩ = [] := by
        refine occurrences_eq_nil ?_
        cases search : first? (read? marker) ⟨passed, []⟩ with
        | none => rfl
        | some found => exact absurd (advances_read? marker _ _ _ search) (by simp)
      rw [nothing]
      simp
  | other unmarked _ induction =>
      rw [unmarked.occurrences_append]
      exact induction
  | @declared passed rest declaration declarations boundary unmarked _ induction =>
      obtain ⟨atMost, further⟩ := induction
      have here := declaration.properties_eq_iff ((declaration.call marker).reverse ++ passed) rest
      rw [declaration.occurrences_print boundary unmarked, List.forall_mem_cons, ← here, ← further,
        List.flatMap_cons]
      generalize readDeclared? _ = found at here ⊢
      have one : (found.map Prod.fst).toList.length ≤ 1 := by
        cases found <;> simp
      refine ⟨by rw [List.length_append, List.length_cons]; omega, fun same => ?_, fun same => ?_⟩
      · have lengths := congrArg List.length same
        rw [List.length_append, List.length_append] at lengths
        have some : 1 ≤ declaration.properties.length := by simp [Declaration.properties]
        have others := length_le_length_flatMap_properties declarations
        exact List.append_inj same (by omega)
      · rw [same.1, same.2]

/-- How many angle brackets are open behind a text, if `count` are open in front of it; `none` if
one of them closes none or a comma stands outside of them. -/
def openAngles? (count : Nat) : List Char → Option Nat
  | [] => some count
  | next :: rest =>
    if next = '<' then openAngles? (count + 1) rest
    else if next = '>' then if count = 0 then none else openAngles? (count - 1) rest
    else if next = ',' && count = 0 then none
    else openAngles? count rest

/-- Whether the angle brackets of a type are nested and no comma stands outside of them. -/
def IsNestedType (type : List Char) : Prop :=
  openAngles? 0 type = some 0

instance (type : List Char) : Decidable (IsNestedType type) :=
  inferInstanceAs (Decidable (_ = _))

/-- A sign of template arguments. -/
def isAngleSign (character : Char) : Bool :=
  character = '<' || character = '>' || character = ','

@[simp] theorem openAngles?_filter (count : Nat) (text : List Char) :
    openAngles? count (text.filter isAngleSign) = openAngles? count text := by
  induction text generalizing count with
  | nil => rfl
  | cons next rest induction =>
      cases sign : isAngleSign next with
      | true => simp only [List.filter_cons, sign, if_true, openAngles?, induction]
      | false =>
          have different := sign
          simp only [isAngleSign, Bool.or_eq_false_iff, decide_eq_false_iff_not] at different
          simp [openAngles?, sign, different, induction]

@[simp] theorem isNestedType_normalForm (type : List Char) :
    IsNestedType (TypeText.normalForm type) ↔ IsNestedType type := by
  have shows : ∀ character, isAngleSign character = true → isBlank character = false ∧
      isIdentifierChar character = false ∧ TypeText.isReferenceSign character = false := by
    intro character sign
    simp only [isAngleSign, Bool.or_eq_true, decide_eq_true_eq] at sign
    rcases sign with (rfl | rfl) | rfl <;> exact ⟨rfl, rfl, rfl⟩
  rw [IsNestedType, IsNestedType, ← openAngles?_filter, TypeText.filter_normalForm shows,
    openAngles?_filter]

/-- For no marked declaration more than one property is reported.  All declared members are
reported, each with the normal form of its type, and nothing else, exactly if every declaration is
plain.  The reported types are then nested if those of the declarations are. -/
theorem scan_properties {markers : Markers} (table : SignatureTable) {body : List Char}
    {declarations : List Declaration} (unsuppressed : Members.isSuppressed markers body = false)
    (declares : Declares markers.property.toList [] body declarations) :
    (Members.scan markers table body).properties.length ≤ declarations.length ∧
    ((Members.scan markers table body).properties =
        declarations.flatMap Declaration.properties ↔
      ∀ declaration ∈ declarations, declaration.IsPlain) ∧
    ((∀ declaration ∈ declarations, declaration.IsPlain ∧ IsNestedType declaration.type) →
      ∀ property ∈ (Members.scan markers table body).properties,
        IsNestedType property.type.toList) := by
  have found : (Members.scan markers table body).properties =
      occurrences (read? markers.property.toList) ⟨[], body⟩ := by
    rw [Members.scan, unsuppressed]
    rfl
  obtain ⟨atMost, reported⟩ := declares.properties_eq_iff
  rw [found]
  refine ⟨atMost, reported, fun plain property listed => ?_⟩
  rw [reported.mpr fun declaration member => (plain declaration member).1] at listed
  obtain ⟨declaration, member, isMember⟩ := List.mem_flatMap.mp listed
  obtain ⟨declarator, _, rfl⟩ := List.mem_map.mp isMember
  rw [TypeText.normalize, String.toList_ofList, String.toList_ofList, isNestedType_normalForm]
  exact (plain declaration member).2

/-- A name behind a space, with nothing behind it but an initializer. -/
def Declarator.scalar (name : List Char) (isName : IsWordText name) (initializer : Initializer) :
    Declarator where
  lead := [' ']
  name := name
  gap := []
  array := []
  initializer := initializer
  behind := []
  isLead := List.forall_mem_singleton.mpr (Or.inl rfl)
  isName := isName
  blank := by simp
  isArray := Or.inl rfl

/-- The declaration `Map<int, Hit*> hits{size};`. -/
def Declaration.templated : Declaration where
  beforeCall := []
  inCall := []
  behindCall := [' ']
  type := "Map<int, Hit*>".toList
  first := .scalar "hits".toList ⟨by decide, List.all_eq_true.mp (by decide)⟩ (.braces "size".toList)
  others := []
  blank := List.all_eq_true.mp (by decide)
  isType := ⟨by decide, rfl⟩
  apart := rfl
  closed := by decide

/-- The declaration `int a, b;`. -/
def Declaration.paired : Declaration where
  beforeCall := []
  inCall := []
  behindCall := [' ']
  type := "int".toList
  first := .scalar "a".toList ⟨by decide, List.all_eq_true.mp (by decide)⟩ .absent
  others := [.scalar "b".toList ⟨by decide, List.all_eq_true.mp (by decide)⟩ .absent]
  blank := List.all_eq_true.mp (by decide)
  isType := ⟨by decide, rfl⟩
  apart := rfl
  closed := by decide

theorem scan_properties_hits :
    (Members.scan {} .engineDefault "SCRIPT_PROPERTY() Map<int, Hit*> hits\x7bsize\x7d;".toList).properties =
      [⟨"hits", "Map<int,Hit>"⟩] ∧ IsNestedType "Map<int,Hit>".toList := by
  have declares : Declares "SCRIPT_PROPERTY".toList []
      (Declaration.templated.print "SCRIPT_PROPERTY".toList ++ []) [.templated] :=
    .declared (by decide) (by decide) .done
  have plain : Declaration.templated.IsPlain :=
    ⟨rfl, rfl, ⟨"size".toList, [], by decide, rfl⟩, List.all_eq_true.mp (by decide), rfl⟩
  obtain ⟨_, reported, nested⟩ :=
    @scan_properties {} .engineDefault _ _ (by decide +kernel) declares
  have properties := reported.mpr (List.forall_mem_singleton.mpr plain)
  have single := nested (List.forall_mem_singleton.mpr ⟨plain, by decide⟩)
  rw [properties] at single
  exact ⟨properties, single _ (List.mem_singleton.mpr rfl)⟩

/-- Of two members declared together the second one is reported, with the name of the first one in
its type.  An equals sign in a type makes a name of what stands in front of it. -/
theorem scan_properties_pair :
    (Members.scan {} .engineDefault "SCRIPT_PROPERTY() int a, b;".toList).properties =
        [⟨"b", "int a,"⟩] ∧
      (Members.scan {} .engineDefault
        "SCRIPT_PROPERTY() Buffer<SIZE == 4> cache;".toList).properties = [⟨"SIZE", "Buffer<"⟩] ∧
      ¬ ∀ (markers : Markers) (table : SignatureTable) (body : List Char)
        (declarations : List Declaration), Members.isSuppressed markers body = false →
          Declares markers.property.toList [] body declarations →
            (Members.scan markers table body).properties =
              declarations.flatMap Declaration.properties := by
  refine ⟨by decide +kernel, by decide +kernel, fun reported => ?_⟩
  have declares : Declares "SCRIPT_PROPERTY".toList []
      (Declaration.paired.print "SCRIPT_PROPERTY".toList ++ []) [.paired] :=
    .declared (by decide) (by decide) .done
  exact absurd (reported {} .engineDefault _ _ (by decide +kernel) declares) (by decide +kernel)

end ScriptRegistrar.DataMember
