import ScriptRegistrar.Config.Validation
import ScriptRegistrar.Proofs.Bracketing
import ScriptRegistrar.Proofs.ClassPlaces
import ScriptRegistrar.Proofs.ConstructorPlaces

/-!
# Where registrations go

The constructor of a class is searched for in the whole header, so it need not stand in the
declaration of the class.  It does if its head starts there: a brace that opens inside a body
closes inside it.  Two classes have their registrations in the same place exactly if they have
the same name.
-/

namespace ScriptRegistrar

open Text Text.Cursor Text.Recogniser

/-- The byte offset of the closing brace of a constructor. -/
def Constructor.closing (constructor : Constructor) : Nat :=
  constructor.opened.offset + byteLength constructor.body

/-- Whether a constructor, its head and its braces, lies between the braces of a body. -/
def ClassBody.Encloses (body : ClassBody) (constructor : Constructor) : Prop :=
  body.opening < constructor.start.offset ∧ constructor.closing < body.closing

instance (body : ClassBody) (constructor : Constructor) :
    Decidable (body.Encloses constructor) :=
  inferInstanceAs (Decidable (_ ∧ _))

theorem Text.exists_of_byteLength_lt {left right first second : List Char}
    (same : left ++ first = right ++ second) (less : byteLength left < byteLength right) :
    ∃ between, right = left ++ between ∧ first = between ++ second := by
  rcases List.append_eq_append_iff.mp same with ⟨between, rfl, rfl⟩ | ⟨between, rfl, rfl⟩
  · exact ⟨between, rfl, rfl⟩
  · rw [byteLength_append] at less
    omega

theorem Text.opens_before {front second opened behind : List Char} (noClosing : '\x7d' ∉ front)
    (same : front ++ '\x7b' :: opened = second ++ '\x7d' :: behind) :
    ∃ third, second = front ++ '\x7b' :: third ∧ opened = third ++ '\x7d' :: behind := by
  rcases List.append_eq_append_iff.mp same with ⟨between, rfl, rest⟩ | ⟨between, rfl, rest⟩
  · cases between with
    | nil => simp at rest
    | cons next third =>
        simp only [List.cons_append, List.cons.injEq] at rest
        exact ⟨third, by rw [rest.1], rest.2⟩
  · cases between with
    | nil => simp at rest
    | cons next others =>
        simp only [List.cons_append, List.cons.injEq] at rest
        exact (noClosing (by simp [← rest.1])).elim

theorem ClassBody.StandsIn.exists_within {body : ClassBody} {text passed ahead : List Char}
    (place : body.StandsIn text) (parts : text = passed ++ ahead)
    (behindOpening : body.opening < byteLength passed)
    (beforeClosing : byteLength passed < body.closing) :
    ∃ first second, body.text = first ++ second ∧ ahead = second ++ '\x7d' :: body.behind.ahead ∧
      byteLength passed = body.opening + 1 + byteLength first := by
  obtain ⟨before, whole, opening⟩ := place.place
  rw [opening] at behindOpening ⊢
  rw [ClassBody.closing, opening] at beforeClosing
  obtain ⟨gap, passedEq, rest⟩ := exists_of_byteLength_lt (whole.symm.trans parts) behindOpening
  cases gap with
  | nil =>
      rw [List.append_nil] at passedEq
      rw [passedEq] at behindOpening
      exact (Nat.lt_irrefl _ behindOpening).elim
  | cons opens first =>
      simp only [List.cons_append, List.cons.injEq] at rest
      obtain ⟨rfl, rest⟩ := rest
      have passedLength : byteLength passed = byteLength before + 1 + byteLength first := by
        simp [passedEq, Nat.add_assoc]
      obtain ⟨second, bodyEq, further⟩ := exists_of_byteLength_lt rest.symm
        (show byteLength first < byteLength body.text by omega)
      exact ⟨first, second, bodyEq, further, passedLength⟩

namespace Constructor.StandsIn

variable {className text : List Char} {constructor : Constructor}

theorem encloses_iff (isWordText : IsWordText className) {body : ClassBody}
    (place : body.StandsIn text) (stands : StandsIn className text constructor) :
    body.Encloses constructor ↔
      body.opening < constructor.start.offset ∧ constructor.start.offset < body.closing := by
  obtain ⟨front, isFront, ahead, passed⟩ := front_of_readHead? stands.head
  have startOffset : constructor.start.offset = byteLength constructor.start.passed.reverse :=
    (byteLength_reverse _).symm
  have openedOffset : constructor.opened.offset =
      constructor.start.offset + byteLength front + 1 := by
    simp only [Cursor.offset, passed, byteLength_cons, byteLength_append, byteLength_reverse,
      utf8Size_openingBrace]
    omega
  refine and_congr_right fun behindOpening => ?_
  rw [Constructor.closing, openedOffset]
  constructor
  · intro beforeClosing
    omega
  · intro beforeClosing
    rw [startOffset] at behindOpening beforeClosing ⊢
    obtain ⟨first, second, bodyEq, rest, offset⟩ :=
      place.exists_within stands.start.1 behindOpening beforeClosing
    rw [ahead] at rest
    obtain ⟨third, rfl, between⟩ :=
      opens_before (not_mem_of_test (isFront.headChars isWordText) (by decide)) rest
    have closes := place.closes
    have inner := stands.closes
    rw [bodyEq, ← List.append_assoc, List.append_assoc (first ++ front)] at closes
    rw [between] at inner
    obtain ⟨behind, rfl⟩ := Bracketed.close?_inside closes inner
    rw [offset, ClassBody.closing, bodyEq]
    simp only [byteLength_append, byteLength, utf8Size_openingBrace]
    have positive := Char.utf8Size_pos '\x7d'
    omega

end Constructor.StandsIn

/-- Whether the constructor of a class that starts first in a text starts in a body. -/
def ClassBody.HoldsFirst (body : ClassBody) (className text : List Char) : Prop :=
  (∃ start, Constructor.StartsAt className text start ∧ start.offset < body.closing) ∧
    ∀ start, Constructor.StartsAt className text start → body.opening < start.offset

namespace Scanner

variable {scanner : Scanner} {text : String} {header : Path}

theorem parts_of_mem_zip {record : ScriptClass} {place : ClassPlace}
    (declared : (record, place) ∈
      (scanner.scanHeader text header).records.zip (scanner.places text)) :
    place ∈ scanner.places text ∧ record.name = place.head.name := by
  obtain ⟨index, both⟩ := List.mem_iff_getElem?.mp declared
  obtain ⟨inRecords, inPlaces⟩ := List.getElem?_zip_eq_some.mp both
  rw [records_scanHeader, List.getElem?_map, inPlaces] at inRecords
  exact ⟨List.mem_of_getElem? inPlaces, congrArg ScriptClass.name (Option.some.inj inRecords).symm⟩

/-- Registrations of a class go into a constructor in its own body if and only if the first
constructor of that name starts there, and those of two classes go into the same constructor if
and only if the classes have the same name. -/
theorem inject?_site {record : ScriptClass} {place : ClassPlace}
    (declared : (record, place) ∈
      (scanner.scanHeader text header).records.zip (scanner.places text))
    (notSpecifier : record.name ≠ "noexcept") {statement updated : String}
    (injected : Injection.inject? record.name statement record.messages text = some updated) :
    ClassBody.extract text record.name place.head.stop = .ok place.body ∧
      ∃ constructor, Constructor.find? record.name.toList text.toList = some constructor ∧
        updated.toList = Injection.replaceBody constructor
          (Injection.renderBody (Injection.lineEnding text.toList) constructor.indent
            (Injection.bodyLines record.name statement record.messages constructor.body)) ∧
        (place.body.Encloses constructor ↔
          place.body.HoldsFirst record.name.toList text.toList) ∧
        ∀ other ∈ (scanner.scanHeader text header).records, other.name ≠ "noexcept" →
          ∀ rewritten, Constructor.find? other.name.toList text.toList = some rewritten →
            (rewritten.opened = constructor.opened ↔ other.name = record.name) := by
  obtain ⟨listed, name⟩ := parts_of_mem_zip declared
  have isWordText := isWordText_of_mem_places listed
  rw [← name] at isWordText
  have isName : Constructor.IsClassName record.name.toList :=
    ⟨isWordText, fun same => notSpecifier (String.toList_inj.mp same)⟩
  simp only [Injection.inject?, Injection.update?, Option.map_eq_some_iff] at injected
  obtain ⟨_, ⟨constructor, found, rfl⟩, rfl⟩ := injected
  have stands := Constructor.standsIn_of_find? found
  have least : ∀ start, Constructor.StartsAt record.name.toList text.toList start →
      constructor.start.offset ≤ start.offset :=
    fun start starts => Constructor.offset_le_of_startsAt isName found starts
  refine ⟨name ▸ extract_of_mem_places listed, constructor, found, String.toList_ofList, ?_, ?_⟩
  · rw [stands.encloses_iff isWordText (standsIn_of_mem_places listed)]
    constructor
    · rintro ⟨behindOpening, beforeClosing⟩
      exact ⟨⟨_, stands.startsAt, beforeClosing⟩,
        fun start starts => Nat.lt_of_lt_of_le behindOpening (least start starts)⟩
    · rintro ⟨⟨start, starts, beforeClosing⟩, behindOpening⟩
      exact ⟨behindOpening _ stands.startsAt, Nat.lt_of_le_of_lt (least start starts) beforeClosing⟩
  · intro other otherListed otherNotSpecifier rewritten otherFound
    constructor
    · intro same
      rw [records_scanHeader] at otherListed
      obtain ⟨otherPlace, inPlaces, rfl⟩ := List.mem_map.mp otherListed
      have otherIsName : Constructor.IsClassName otherPlace.head.name.toList :=
        ⟨isWordText_of_mem_places inPlaces,
          fun same => otherNotSpecifier (String.toList_inj.mp same)⟩
      have sameName := (Constructor.standsIn_of_find? otherFound).name_eq_of_opened_eq
        otherIsName isName stands same
      exact String.toList_inj.mp sameName
    · intro same
      rw [same, found, Option.some.injEq] at otherFound
      rw [otherFound]

theorem inject?_site_player :
    let text := "struct Player : public ScriptBehaviour \x7b\n  Player() \x7b\n  \x7d\n" ++
      "  void Start();\n\x7d;\n"
    let scanner := ofConfig {}
    ∃ record place constructor,
      (record, place) ∈ (scanner.scanHeader text ⟨"Player.h"⟩).records.zip (scanner.places text) ∧
        Constructor.find? record.name.toList text.toList = some constructor ∧
          (place.body.Encloses constructor ↔
            place.body.HoldsFirst record.name.toList text.toList) := by
  intro text scanner
  have declares : ∃ pair ∈ (scanner.scanHeader text ⟨"Player.h"⟩).records.zip
      (scanner.places text), pair.1.name ≠ "noexcept" ∧
        (Injection.inject? pair.1.name "RegisterMessage" pair.1.messages text).isSome = true := by
    decide +kernel
  obtain ⟨⟨record, place⟩, declared, notSpecifier, isSome⟩ := declares
  obtain ⟨updated, injected⟩ := Option.isSome_iff_exists.mp isSome
  obtain ⟨_, constructor, found, _, encloses, _⟩ := inject?_site declared notSpecifier injected
  exact ⟨record, place, constructor, declared, found, encloses⟩

/-- The constructor of a derived class calls that of its base in front of its own brace, and so is
taken for it. -/
theorem inject?_outside :
    ¬ ∀ config : Config, config.validate = .ok () → ∀ (text : String) (header : Path)
      (record : ScriptClass) (place : ClassPlace),
      (record, place) ∈ ((ofConfig config).scanHeader text header).records.zip
        ((ofConfig config).places text) →
      record.wantsInjection = true →
      ∀ updated, Injection.inject? record.name config.registration.statement record.messages text =
        some updated →
      ∀ constructor, Constructor.find? record.name.toList text.toList = some constructor →
        place.body.Encloses constructor := by
  intro claimed
  have outside : ∃ text : String, ∃ pair ∈ ((ofConfig {}).scanHeader text ⟨"Boss.h"⟩).records.zip
      ((ofConfig {}).places text), pair.1.wantsInjection = true ∧
        (Injection.inject? pair.1.name "RegisterMessage" pair.1.messages text).isSome = true ∧
        (Constructor.find? pair.1.name.toList text.toList).any
          (fun constructor => !decide (pair.2.body.Encloses constructor)) = true := by
    refine ⟨"class Player : public ScriptBehaviour \x7b\n  SCRIPT_MESSAGE() void Jump();\n\x7d;\n" ++
      "class Boss : public Player \x7b\n  Boss() : Player() \x7b\n  \x7d\n\x7d;\n", ?_⟩
    decide +kernel
  obtain ⟨text, ⟨record, place⟩, declared, wants, isSome, elsewhere⟩ := outside
  obtain ⟨updated, injected⟩ := Option.isSome_iff_exists.mp isSome
  cases found : Constructor.find? record.name.toList text.toList with
  | none => simp [found] at elsewhere
  | some constructor =>
      have encloses := claimed {} rfl text ⟨"Boss.h"⟩ record place declared wants updated injected
        constructor found
      simp [found, encloses] at elsewhere

end Scanner

end ScriptRegistrar
