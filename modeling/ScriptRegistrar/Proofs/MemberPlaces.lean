import ScriptRegistrar.Generator
import ScriptRegistrar.Proofs.BracketDepth
import ScriptRegistrar.Proofs.ClassPlaces
import ScriptRegistrar.Proofs.ConstructorClosing
import ScriptRegistrar.Proofs.Crediting

/-!
# Where members are declared

The members of a class are declared in its body, and the bodies of two classes of a header share
no text.  So a declaration counts for one class alone, which is the outermost one around it: no
class is looked for in the body of another.

A body is searched as one text, whatever braces it holds.  A member that is declared in a group of
braces, be it a nested class or the body of a function, counts like any other.  Where no group
holds a word that every declaration has, all members are declared outside of the groups.
-/

namespace ScriptRegistrar

open Text Text.Cursor Text.Recogniser Bracketed

/-- What reads the head of a declaration that counts under a rule. -/
def DiscoveryRule.readHead? (markers : Markers) : DiscoveryRule → Recogniser Handler.Head
  | .marker => Handler.Head.readMarked? markers.message.toList
  | .namedMarker => Handler.Head.readNamed? markers.namedMessage.toList
  | .signature => Handler.Head.readBare?

/-- Whether a handler is declared at a place: behind its marker, or bare. -/
def Message.DeclaredAt (markers : Markers) (message : Message) (place : Cursor) : Prop :=
  ∃ head behind declaration, message.rule.readHead? markers place = some (head, behind) ∧
    head.complete? = some declaration ∧ message = declaration.message message.rule

def Property.DeclaredAt (markers : Markers) (property : Property) (place : Cursor) : Prop :=
  ∃ behind, PropertyDeclaration.read? markers.property.toList place = some (property, behind)

/-- The words of which every declaration of a member holds one. -/
def Markers.memberWords (markers : Markers) : List (List Char) :=
  ["void".toList, markers.message.toList, markers.namedMessage.toList, markers.property.toList]

/-- Whether one of the words of declarations comes next, with braces neither in it nor before it. -/
def MemberBegins (markers : Markers) (place : Cursor) : Prop :=
  ∃ word ∈ markers.memberWords, ∃ lead rest, place.ahead = lead ++ word ++ rest ∧
    ∀ character ∈ lead, isBrace character = false

section

variable {markers : Markers} {place : Cursor}

theorem MemberBegins.of_word {word between : List Char} {next : Cursor}
    (listed : word ∈ markers.memberWords) (across : Across place (word ++ between) next) :
    MemberBegins markers place :=
  ⟨word, listed, [], between ++ next.ahead, by simpa using across.1, by simp⟩

theorem Message.DeclaredAt.begins {message : Message}
    (declared : message.DeclaredAt markers place) : MemberBegins markers place := by
  obtain ⟨head, behind, _, read, _⟩ := declared
  cases rule : message.rule with
  | marker =>
      rw [rule] at read
      obtain ⟨rest, across, _⟩ := Handler.Head.across_of_readMarked? read
      exact .of_word (by simp [Markers.memberWords]) across
  | namedMarker =>
      rw [rule] at read
      obtain ⟨rest, across, _⟩ := Handler.Head.across_of_readNamed? read
      exact .of_word (by simp [Markers.memberWords]) across
  | signature =>
      rw [rule, DiscoveryRule.readHead?, Handler.Head.readBare?] at read
      split at read
      · obtain ⟨lead, toStart, shape⟩ := Handler.Head.across_virtual place
        obtain ⟨rest, fromStart⟩ := Handler.Head.across_of_readVoid? read
        have ahead := (toStart.trans fromStart).1
        refine ⟨"void".toList, List.mem_cons_self, lead, rest ++ behind.ahead, ?_, ?_⟩
        · rw [ahead]
          simp only [List.append_assoc]
        · rcases shape with rfl | ⟨blanks, rfl, _, blank⟩
          · simp
          · intro character member
            rcases List.mem_append.mp member with inWord | inBlanks
            · exact Injection.isBraceless_of_isIdentifier (by decide) character inWord
            · exact not_isBrace_of_isBlank character (blank character inBlanks)
      · cases read

theorem Property.DeclaredAt.begins {property : Property}
    (declared : property.DeclaredAt markers place) : MemberBegins markers place := by
  obtain ⟨_, read⟩ := declared
  obtain ⟨rest, across, _⟩ := PropertyDeclaration.across_of_read? read
  exact .of_word (by simp [Markers.memberWords]) across

end

namespace Members

variable {markers : Markers} {table : SignatureTable} {body : List Char}

/-- The messages that declarations make by one rule. -/
def messagesBy (rule : DiscoveryRule) (table : SignatureTable)
    (declarations : List Handler.Declaration) : List Message :=
  let messages := declarations.map (Handler.Declaration.message rule)
  if rule = .signature then
    messages.filter fun message => table.accepts message.function message.parameters
  else messages

theorem found_eq (rule : DiscoveryRule) (markers : Markers) (table : SignatureTable)
    (body : List Char) :
    found rule markers table body =
      messagesBy rule table (Handler.Declaration.all (rule.readHead? markers) body) := by
  cases rule <;> rfl

/-- Every message that a rule finds is that of a declaration which the rule looks for. -/
theorem exists_declaration_of_mem_found {rule : DiscoveryRule} {message : Message}
    (listed : message ∈ found rule markers table body) :
    ∃ declaration ∈ Handler.Declaration.all (rule.readHead? markers) body,
      declaration.message rule = message := by
  cases rule with
  | marker => exact List.mem_map.mp listed
  | namedMarker => exact List.mem_map.mp listed
  | signature => exact List.mem_map.mp (List.mem_filter.mp listed).1

theorem goesForward_readHead? (rule : DiscoveryRule) : GoesForward (rule.readHead? markers) := by
  intro cursor head next read
  cases rule with
  | marker =>
      obtain ⟨_, across, _⟩ := Handler.Head.across_of_readMarked? read
      exact ⟨_, across⟩
  | namedMarker =>
      obtain ⟨_, across, _⟩ := Handler.Head.across_of_readNamed? read
      exact ⟨_, across⟩
  | signature =>
      rw [DiscoveryRule.readHead?, Handler.Head.readBare?] at read
      split at read
      · obtain ⟨_, across, _⟩ := Handler.Head.across_of_read? read
        exact ⟨_, across⟩
      · cases read

theorem declaredAt_of_mem_found {rule : DiscoveryRule} {message : Message}
    (listed : message ∈ found rule markers table body) :
    ∃ before place, Across (Cursor.start body) before place ∧ message.DeclaredAt markers place := by
  obtain ⟨declaration, inAll, rfl⟩ := exists_declaration_of_mem_found listed
  obtain ⟨head, occurs, complete⟩ := List.mem_filterMap.mp inAll
  obtain ⟨before, place, behind, across, read⟩ :=
    exists_of_mem_occurrences (goesForward_readHead? rule) occurs
  exact ⟨before, place, across, head, behind, declaration, read, complete, rfl⟩

theorem declaredAt_of_mem_messages {message : Message}
    (listed : message ∈ (scan markers table body).messages) :
    ∃ before place, Across (Cursor.start body) before place ∧ message.DeclaredAt markers place := by
  unfold scan at listed
  split at listed
  · cases listed
  · change message ∈ messagesOf markers table body at listed
    rw [messagesOf_eq_keepFirst] at listed
    rcases List.mem_append.mp (mem_of_mem_keepFirst listed) with marked | bare
    · rcases List.mem_append.mp marked with plain | named
      · exact declaredAt_of_mem_found plain
      · exact declaredAt_of_mem_found named
    · exact declaredAt_of_mem_found bare

theorem declaredAt_of_mem_properties {property : Property}
    (listed : property ∈ (scan markers table body).properties) :
    ∃ before place, Across (Cursor.start body) before place ∧
      property.DeclaredAt markers place := by
  unfold scan at listed
  split at listed
  · cases listed
  · have forward : GoesForward (PropertyDeclaration.read? markers.property.toList) := by
      intro cursor found next read
      obtain ⟨_, across, _⟩ := PropertyDeclaration.across_of_read? read
      exact ⟨_, across⟩
    obtain ⟨before, place, behind, across, read⟩ := exists_of_mem_occurrences forward listed
    exact ⟨before, place, across, behind, read⟩

end Members

/-- Whether no group of braces in a text holds a word. -/
def OutsideGroups (text word : List Char) : Prop :=
  ∀ outer inside behind, text = outer ++ '\x7b' :: (inside ++ '\x7d' :: behind) →
    Balanced '\x7b' '\x7d' inside → ¬ word <:+: inside

/-- Whether a declaration of a class body starts at a place, with a text between the brace of the
body and the place.  That text closes no brace but those it opens.  If no group of braces in the
body holds a word of declarations, then it closes all of them. -/
structure ClassBody.Declares (markers : Markers) (body : ClassBody) (before : List Char)
    (place : Cursor) : Prop where
  inBody : Across (Cursor.start body.text) before place
  nested : before.count '\x7d' ≤ before.count '\x7b'
  atTop : (∀ word ∈ markers.memberWords, OutsideGroups body.text word) →
    before.count '\x7d' = before.count '\x7b'

namespace Generator

variable {generator : Generator}

theorem not_isBrace_of_mem_memberWords {word : List Char}
    (listed : word ∈ generator.config.markers.memberWords) :
    ∀ character ∈ word, isBrace character = false := by
  have identifiers := Config.isIdentifier_of_mem_identifiers generator.valid
  simp only [Config.identifiers, List.forall_mem_cons] at identifiers
  obtain ⟨_, message, namedMessage, property, _⟩ := identifiers
  simp only [Markers.memberWords, List.mem_cons, List.not_mem_nil, or_false] at listed
  rcases listed with rfl | rfl | rfl | rfl
  · exact Injection.isBraceless_of_isIdentifier (by decide)
  · exact Injection.isBraceless_of_isIdentifier message
  · exact Injection.isBraceless_of_isIdentifier namedMessage
  · exact Injection.isBraceless_of_isIdentifier property

theorem exists_of_append_eq_append {left right inside behind : List Char}
    (noClosing : ∀ character ∈ left, isBrace character = false)
    (same : left ++ right = inside ++ '\x7d' :: behind) : ∃ rest, inside = left ++ rest := by
  rcases List.append_eq_append_iff.mp same with ⟨rest, rfl, _⟩ | ⟨rest, rfl, shape⟩
  · exact ⟨rest, rfl⟩
  · cases rest with
    | nil => exact ⟨[], by simp⟩
    | cons next others =>
        obtain ⟨rfl, _⟩ := List.cons.inj shape
        have isBrace := noClosing '\x7d' (by simp)
        exact absurd isBrace (by decide)

theorem declares_of_begins {text : List Char} {body : ClassBody} {before : List Char}
    {place : Cursor} (stands : body.StandsIn text)
    (across : Across (Cursor.start body.text) before place)
    (begins : MemberBegins generator.config.markers place) :
    body.Declares generator.config.markers before place := by
  have different : '\x7d' ≠ '\x7b' := by decide
  have shape : body.text = before ++ place.ahead := across.1
  have balanced := balanced_of_close? different stands.closes
  rw [shape] at balanced
  obtain ⟨depth, isOpen, closes⟩ := exists_openBehind?_of_balanced different balanced
  have counts := count_of_openBehind? different isOpen
  refine ⟨across, by omega, ?_⟩
  intro outside
  cases depth with
  | zero => omega
  | succ depth =>
      obtain ⟨outer, left, right, rest, beforeShape, aheadShape, groupBalanced⟩ :=
        exists_group_of_openBehind? different isOpen closes
      obtain ⟨word, listed, lead, behindWord, ahead, noBrace⟩ := begins
      have clear : ∀ character ∈ lead ++ word, isBrace character = false := by
        intro character member
        rcases List.mem_append.mp member with inLead | inWord
        · exact noBrace character inLead
        · exact not_isBrace_of_mem_memberWords listed character inWord
      obtain ⟨last, inGroup⟩ := exists_of_append_eq_append clear (ahead.symm.trans aheadShape)
      refine (outside word listed outer (left ++ right) rest ?_ groupBalanced ?_).elim
      · rw [shape, beforeShape, aheadShape]
        simp
      · exact ⟨left ++ lead, last, by rw [inGroup]; simp⟩

/-- Every member of a record is declared in the body of its class, and no two bodies overlap. -/
theorem members_of_scanHeader (generator : Generator) (text : String) (header : Path) :
    (generator.scanner.scanHeader text header).records =
        (generator.scanner.places text).map (generator.scanner.recordAt header) ∧
      (generator.scanner.places text).Pairwise
        (fun first second => first.body.closing < second.body.opening) ∧
      ∀ place ∈ generator.scanner.places text,
        ClassBody.extract text place.head.name place.head.stop = .ok place.body ∧
        (∀ message ∈ (generator.scanner.recordAt header place).messages,
          ∃ before start, message.DeclaredAt generator.config.markers start ∧
            place.body.Declares generator.config.markers before start) ∧
        ∀ property ∈ (generator.scanner.recordAt header place).properties,
          ∃ before start, property.DeclaredAt generator.config.markers start ∧
            place.body.Declares generator.config.markers before start := by
  refine ⟨Scanner.records_scanHeader _ text header, Scanner.pairwise_placesFrom _ _, ?_⟩
  intro place listed
  have stands := Scanner.standsIn_of_mem_places listed
  refine ⟨Scanner.extract_of_mem_places listed, ?_, ?_⟩
  · intro message reported
    obtain ⟨before, start, across, declared⟩ := Members.declaredAt_of_mem_messages reported
    exact ⟨before, start, declared, declares_of_begins stands across declared.begins⟩
  · intro property reported
    obtain ⟨before, start, across, declared⟩ := Members.declaredAt_of_mem_properties reported
    exact ⟨before, start, declared, declares_of_begins stands across declared.begins⟩

theorem members_of_scanHeader_door :
    let generator : Generator :=
      ⟨{ baseClass := "B", markers := { message := "M" } }, .engineDefault, rfl⟩
    let text := "class Door:public B\x7bstruct Bolt\x7bM()void Slide();\x7d;M()void Open();\x7d;"
    ∃ place ∈ generator.scanner.places text,
      ∃ message ∈ (generator.scanner.recordAt ⟨"Door.h"⟩ place).messages,
        message.function = "Slide" ∧ ∃ before start,
          message.DeclaredAt generator.config.markers start ∧
            place.body.Declares generator.config.markers before start := by
  intro generator text
  have reports : ∃ place ∈ generator.scanner.places text,
      ∃ message ∈ (generator.scanner.recordAt ⟨"Door.h"⟩ place).messages,
        message.function = "Slide" := by
    decide +kernel
  obtain ⟨place, listed, message, reported, function⟩ := reports
  obtain ⟨_, _, members⟩ := members_of_scanHeader generator text ⟨"Door.h"⟩
  obtain ⟨_, messages, _⟩ := members place listed
  exact ⟨place, listed, message, reported, function, messages message reported⟩

/-- A handler of a nested class counts for the class around it. -/
theorem members_of_scanHeader_nested :
    ¬ ∀ (generator : Generator) (text : String) (header : Path),
      ∀ place ∈ generator.scanner.places text,
        ∀ message ∈ (generator.scanner.recordAt header place).messages,
          ∃ before start, message.DeclaredAt generator.config.markers start ∧
            Across (Cursor.start place.body.text) before start ∧
              before.count '\x7b' = before.count '\x7d' := by
  intro claimed
  let generator : Generator := ⟨{}, .engineDefault, rfl⟩
  let text := "class Outer : public ScriptBehaviour \x7b\n  struct Inner \x7b\n" ++
    "    SCRIPT_MESSAGE() void Open();\n  \x7d;\n\x7d;\n"
  have nested : ∃ place ∈ generator.scanner.places text,
      ∃ message ∈ (generator.scanner.recordAt ⟨"Outer.h"⟩ place).messages,
        ∀ length < place.body.text.length + 1,
          (place.body.text.take length).count '\x7b' = (place.body.text.take length).count '\x7d' →
          (message.rule.readHead? generator.config.markers
            ⟨(place.body.text.take length).reverse, place.body.text.drop length⟩).isNone = true := by
    decide +kernel
  obtain ⟨place, listed, message, reported, nowhere⟩ := nested
  obtain ⟨before, ⟨passed, ahead⟩, declared, ⟨bodyShape, passedShape⟩, level⟩ :=
    claimed generator text ⟨"Outer.h"⟩ place listed message reported
  simp only [Cursor.start, List.append_nil] at bodyShape passedShape
  have inBody : before.length < place.body.text.length + 1 := by
    rw [bodyShape, List.length_append]
    omega
  have unread := nowhere before.length inBody
  rw [bodyShape, List.take_left, List.drop_left, ← passedShape] at unread
  obtain ⟨head, behind, _, read, _⟩ := declared
  rw [read] at unread
  cases unread level

end Generator

end ScriptRegistrar
