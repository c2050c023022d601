import ScriptRegistrar.Proofs.TypeJoints
import ScriptRegistrar.Proofs.WrittenParameters

/-!
# Spaces around signs

Between a type and a name a sign may stand with a space in front, behind, or on both sides, and
the type is read.  With no space at all the name is part of the last token.  It is found only if
that token has nothing else but signs, that is, if the type itself ends with a blank and signs;
in every other case the name goes into what is read as the type.
-/

namespace ScriptRegistrar.Written

open Text ParameterList TypeText

/-- Whether a type ends with a blank and behind it nothing but signs. -/
def endsWithSpacedSigns (type : List Char) : Bool :=
  (dropEndWhile isReferenceSign type).getLast?.any isBlank

theorem signs_of_namesParameter {token : List Char} (names : namesParameter token = true)
    (noArray : token.getLast? ≠ some ']') :
    ∃ signs word, token = signs ++ word ∧ (∀ sign ∈ signs, isReferenceSign sign = true) ∧
      isIdentifier word = true := by
  have parts : token = token.takeWhile isReferenceSign ++ token.dropWhile isReferenceSign :=
    List.takeWhile_append_dropWhile.symm
  have whole : withoutArray (token.dropWhile isReferenceSign) =
      token.dropWhile isReferenceSign := by
    rw [withoutArray, if_neg]
    intro bracket
    rw [parts, List.getLast?_append, bracket] at noArray
    exact noArray rfl
  rw [namesParameter, whole, Bool.and_eq_true, Bool.and_eq_true] at names
  exact ⟨_, _, parts, fun _ member => List.all_eq_true.mp List.all_takeWhile _ member, names.1.1⟩

theorem exists_blanks_trim {text : List Char} (starts : text.head?.any isBlank = true)
    (ends : text.getLast?.any isBlank = false) :
    ∃ before, before ≠ [] ∧ (∀ character ∈ before, isBlank character = true) ∧
      text = before ++ trim text := by
  obtain ⟨before, behind, parts, blankBefore, blankBehind⟩ := parts_of_trim text
  have noneBehind : behind = [] := by
    rcases List.eq_nil_or_concat behind with none | ⟨front, final, shape⟩
    · exact none
    · rw [parts, shape, List.concat_eq_append, ← List.append_assoc, ← List.append_assoc,
        List.getLast?_concat, Option.any_some, blankBehind final (by simp [shape])] at ends
      exact Bool.noConfusion ends
  rw [noneBehind, List.append_nil] at parts
  refine ⟨before, ?_, blankBefore, parts⟩
  rintro rfl
  rw [parts, List.nil_append, (isTrimmed_trim text).first] at starts
  exact Bool.noConfusion starts

section

variable {type name : List Char} {sign : Char} (isType : IsType type)
  (isName : IsParameterName name) (isSign : isReferenceSign sign = true)

include isName in
theorem exists_last_of_isParameterName :
    ∃ last, name.getLast? = some last ∧ isIdentifierChar last = true := by
  have nonempty : name ≠ [] := by
    rintro rfl
    exact Bool.noConfusion isName.identifier
  obtain ⟨last, ends⟩ := Option.isSome_iff_exists.mp (List.getLast?_isSome.mpr nonempty)
  exact ⟨last, ends, isIdentifierChar_of_mem isName.identifier (List.mem_of_getLast? ends)⟩

include isSign in
theorem facts_of_isReferenceSign : Nesting.isPlain sign = true ∧ isTypeChar sign = true ∧
    isBlank sign = false ∧ isIdentifierChar sign = false := by
  rcases isReferenceSign_iff.mp isSign with rfl | rfl <;> decide

theorem dropEndWhile_signs (head : List Char) {blanks signs : List Char} (nonempty : blanks ≠ [])
    (areBlanks : ∀ character ∈ blanks, isBlank character = true)
    (areSigns : ∀ sign ∈ signs, isReferenceSign sign = true) :
    dropEndWhile isReferenceSign (head ++ (blanks ++ signs)) = head ++ blanks := by
  have noSign : ∀ character ∈ blanks, isReferenceSign character = false := by
    intro character member
    cases sign : isReferenceSign character with
    | false => rfl
    | true =>
        have solid := (facts_of_isReferenceSign sign).2.2.1
        rw [areBlanks character member] at solid
        exact Bool.noConfusion solid
  rw [← List.append_assoc, dropEndWhile_append_of_all _ areSigns,
    dropEndWhile_append_of_none head nonempty noSign]

include isName in
theorem isPlain_of_mem_name : ∀ character ∈ name, Nesting.isPlain character = true :=
  fun _ member => Nesting.isPlain_of_isIdentifierChar (isIdentifierChar_of_mem isName.identifier member)

include isType isName isSign

theorem types_unspaced (few : HasFewBrackets type) :
    types (type ++ sign :: name) = [normalForm (typePart (type ++ sign :: name))] := by
  obtain ⟨plain, typeChar, solid, _⟩ := facts_of_isReferenceSign isSign
  have room : Nesting.HasRoom {} (type ++ ([sign] ++ name)) :=
    Nesting.hasRoom_start (few.append_plain
      (List.forall_mem_append.mpr ⟨by simpa using plain, isPlain_of_mem_name isName⟩))
  obtain ⟨first, rest, shape, firstSolid⟩ := exists_cons_of_isType isType
  obtain ⟨last, nameEnds, lastLetter⟩ := exists_last_of_isParameterName isName
  have levels : Nesting.Levels isTypeChar {} (type ++ ([sign] ++ name)) := by
    refine (levels_of_isType isType rfl).append fun _ => Nesting.Levels.append ?_ fun _ => ?_
    · exact .of_isPlain (by simpa using plain) (by simpa using typeChar)
    · exact levels_of_letters (fun _ => isIdentifierChar_of_mem isName.identifier)
        fun _ member =>
          isTypeChar_of_isIdentifierChar (isIdentifierChar_of_mem isName.identifier member)
  have isTrimmed : IsTrimmed (type ++ ([sign] ++ name)) := by
    refine isTrimmed_append _ (by simp [shape]) (List.ne_nil_of_mem (List.mem_of_getLast? nameEnds))
      (by simpa [shape] using firstSolid) ?_
    rw [nameEnds]
    exact isBlank_of_isIdentifierChar lastLetter
  have hides : Nesting.Hides ',' {} (type ++ ([sign] ++ name)) :=
    levels.hides room ',' fun _ => rfl
  have noDefault : beforeTop '=' {} (type ++ ([sign] ++ name)) = type ++ ([sign] ++ name) := by
    have whole := @beforeTop_append '=' {} _ [] (levels.hides room '=' fun _ => rfl)
    simpa [beforeTop] using whole
  have notVoid : trim (type ++ ([sign] ++ name)) ≠ "void".toList := by
    rw [trim_eq_self isTrimmed]
    intro isVoid
    have inVoid : sign ∈ "void".toList := by
      rw [← isVoid]
      simp
    have letters : ∀ letter ∈ "void".toList, isIdentifierChar letter = true :=
      List.all_eq_true.mp (by decide)
    rw [isReferenceSign_of_isIdentifierChar (letters sign inVoid)] at isSign
    exact Bool.noConfusion isSign
  have declared : parameterType? (type ++ ([sign] ++ name)) =
      some (normalForm (typePart (type ++ ([sign] ++ name)))) := by
    rw [parameterType?, noDefault, trim_eq_self isTrimmed]
    split
    · rename_i empty
      simp at empty
    · rfl
  have read := @types_commaSeparated [type ++ ([sign] ++ name)]
    (by simpa using hides) (by simp) (by simpa using notVoid)
  rw [List.filterMap_cons_some declared] at read
  simpa [commaSeparated] using read

omit isType in
theorem normalForm_unspaced_ne : normalForm (type ++ sign :: name) ≠ normalForm type := by
  obtain ⟨last, nameEnds, _⟩ := exists_last_of_isParameterName isName
  have same : normalForm (type ++ sign :: name) = normalForm (type ++ name) := by
    simp [normalForm_eq, unsigned, isSign]
  rw [same]
  exact normalForm_append_word_ne (List.ne_nil_of_mem (List.mem_of_getLast? nameEnds))
    (fun _ => isIdentifierChar_of_mem isName.identifier) isName.notQualifier type

omit isType in
/-- If the last token is taken for a name, then nothing but signs and a blank come before it. -/
theorem endsWithSpacedSigns_of_namesParameter {head tail rest : List Char} {blank : Char}
    (isBlank : Text.isBlank blank = true) (starts : tail = blank :: rest)
    (shape : type ++ sign :: name = head ++ tail) (names : namesParameter (trim tail) = true) :
    endsWithSpacedSigns type = true := by
  obtain ⟨_, _, _, notLetter⟩ := facts_of_isReferenceSign isSign
  obtain ⟨last, nameEnds, lastLetter⟩ := exists_last_of_isParameterName isName
  have ends : (head ++ tail).getLast? = some last := by
    rw [← shape, List.getLast?_append, List.getLast?_cons, nameEnds]
    rfl
  have tailEnds : tail.getLast?.any Text.isBlank = false := by
    have nonempty : tail ≠ [] := by simp [starts]
    rw [List.getLast?_append_of_ne_nil head nonempty] at ends
    rw [ends]
    exact isBlank_of_isIdentifierChar lastLetter
  obtain ⟨before, someBefore, blankBefore, parts⟩ :=
    exists_blanks_trim (by rw [starts]; exact isBlank) tailEnds
  have noBracket : (trim tail).getLast? ≠ some ']' := by
    intro bracket
    rw [parts, List.getLast?_append, List.getLast?_append, bracket] at ends
    cases ends
    exact absurd lastLetter (by decide)
  obtain ⟨signs, word, token, areSigns, isWord⟩ := signs_of_namesParameter names noBracket
  have noLetter : ∀ character ∈ before ++ signs, isIdentifierChar character = false :=
    List.forall_mem_append.mpr
      ⟨fun _ member => isIdentifierChar_of_isBlank (blankBefore _ member),
        fun _ member => (facts_of_isReferenceSign (areSigns _ member)).2.2.2⟩
  -- Both readings of the text agree once the word at its end is dropped.
  have same : type ++ [sign] = head ++ (before ++ signs) := by
    have text : type ++ [sign] ++ name = head ++ (before ++ signs) ++ word := by
      rw [parts, token] at shape
      simpa using shape
    have dropped := congrArg (dropEndWhile isIdentifierChar) text
    rwa [dropEndWhile_append_of_all _ fun _ => isIdentifierChar_of_mem isName.identifier,
      dropEndWhile_append_of_all _ fun _ => isIdentifierChar_of_mem isWord,
      dropEndWhile_append_of_none type (by simp) (by simpa using notLetter),
      dropEndWhile_append_of_none head (by simp [someBefore]) noLetter] at dropped
  have kept : dropEndWhile isReferenceSign type = head ++ before := by
    rw [← dropEndWhile_signs head someBefore blankBefore areSigns, ← same]
    exact (dropEndWhile_append_of_all type (by simpa using isSign)).symm
  obtain ⟨final, beforeEnds⟩ := Option.isSome_iff_exists.mp (List.getLast?_isSome.mpr someBefore)
  rw [endsWithSpacedSigns, kept, List.getLast?_append, beforeEnds]
  exact blankBefore final (List.mem_of_getLast? beforeEnds)

theorem normalForm_typePart_of_endsWithSpacedSigns (few : HasFewBrackets type)
    (spaced : endsWithSpacedSigns type = true) :
    normalForm (typePart (type ++ sign :: name)) = normalForm type := by
  obtain ⟨signs, shape, areSigns⟩ := dropEndWhile_append isReferenceSign type
  obtain ⟨head, blank, isBlank, kept⟩ : ∃ head blank, isBlank blank = true ∧
      dropEndWhile isReferenceSign type = head ++ [blank] := by
    rcases List.eq_nil_or_concat (dropEndWhile isReferenceSign type) with none | ⟨head, blank, kept⟩
    · simp [endsWithSpacedSigns, none] at spaced
    · rw [List.concat_eq_append] at kept
      exact ⟨head, blank, by simpa [endsWithSpacedSigns, kept] using spaced, kept⟩
  have parts : type = head ++ [blank] ++ signs := by rw [← kept, ← shape]
  have sameForm : normalForm type = normalForm head := by
    rw [parts, normalForm_append_signs _ areSigns, normalForm_append_blank head isBlank]
  let declarator : Declarator :=
    { signs := signs ++ [sign]
      name := name
      sizes := []
      areSigns := List.forall_mem_append.mpr ⟨areSigns, by simpa using isSign⟩
      isName := isName
      unbracketed := by simp }
  have declaration : type ++ sign :: name = head ++ blank :: declarator.print := by
    rw [parts]
    simp [declarator, Declarator.print]
  have top : (Nesting.steps {} head).isTop = true := by
    have closed : (Nesting.steps {} type).isTop = true :=
      (@levels_of_isType _ isType {} rfl).isTop_steps (Nesting.hasRoom_start few) rfl
    have plain : ∀ character ∈ [blank] ++ signs, Nesting.isPlain character = true :=
      List.forall_mem_append.mpr ⟨by simpa using Nesting.isPlain_of_isBlank isBlank,
        fun _ member => (facts_of_isReferenceSign (areSigns _ member)).1⟩
    have leads := (Nesting.steps {} head).steps_of_isPlain plain
    rw [parts, List.append_assoc, Nesting.steps_append, leads] at closed
    exact closed
  have room : (Nesting.steps {} (head ++ [blank])).HasRoom declarator.print := by
    rw [parts] at few
    refine (Nesting.hasRoom_start (few.of_append.1.append_plain ?_)).steps_of_append
    simp only [Declarator.print, declarator, List.flatMap_nil, List.append_nil]
    exact List.forall_mem_append.mpr ⟨fun _ member =>
      (facts_of_isReferenceSign (declarator.areSigns _ member)).1, isPlain_of_mem_name isName⟩
  have split := @lastTopBlank?_append_of_hides {} head declarator.print blank isBlank top
    fun character isBlank => (declarator.levels_print _).hides room character fun _ => by
      simp [isDeclaratorChar, isBlank]
  have token : trim (blank :: declarator.print) = declarator.print := by
    simpa using @trim_surrounded [blank] _ [] declarator.isTrimmed_print (by simpa using isBlank)
      (by simp)
  have headLeft : normalForm head ≠ [] := by
    rw [← sameForm]
    exact normalForm_ne_nil_of_isType isType
  rw [declaration, typePart, split]
  simp [token, headLeft, sameForm]

theorem normalForm_typePart_iff (few : HasFewBrackets type) :
    normalForm (typePart (type ++ sign :: name)) = normalForm type ↔
      endsWithSpacedSigns type = true := by
  refine ⟨fun same => ?_, normalForm_typePart_of_endsWithSpacedSigns isType isName isSign few⟩
  have notWhole : typePart (type ++ sign :: name) ≠ type ++ sign :: name := by
    intro whole
    rw [whole] at same
    exact normalForm_unspaced_ne isName isSign same
  unfold typePart at notWhole
  split at notWhole
  · exact (notWhole rfl).elim
  · rename_i head tail split
    obtain ⟨blank, rest, isBlank, starts, shape⟩ := parts_of_lastTopBlank? split
    split at notWhole
    · rename_i named
      exact endsWithSpacedSigns_of_namesParameter isName isSign isBlank starts shape
        (Bool.and_eq_true_iff.mp named).1
    · exact (notWhole rfl).elim

end

theorem types_behind_space {type name signs : List Char} (isType : IsType type)
    (few : HasFewBrackets type) (isName : IsParameterName name)
    (areSigns : ∀ sign ∈ signs, isReferenceSign sign = true) :
    types (type ++ ' ' :: (signs ++ name)) = [normalForm type] := by
  let declarator : Declarator := ⟨signs, name, [], areSigns, isName, by simp⟩
  let parameter : Parameter := ⟨[], type, declarator, none, [], by simp, isType, by simp⟩
  have text : commaSeparated ([parameter].map Parameter.print) = type ++ ' ' :: (signs ++ name) := by
    simp [parameter, declarator, commaSeparated, Parameter.print, Parameter.declaration,
      Parameter.default, Declarator.print]
  have fewBehind : HasFewBrackets (type ++ ' ' :: (signs ++ name)) :=
    few.append_plain (List.forall_mem_cons.mpr ⟨rfl, List.forall_mem_append.mpr
      ⟨fun _ member => (facts_of_isReferenceSign (areSigns _ member)).1, isPlain_of_mem_name isName⟩⟩)
  rw [← text] at fewBehind ⊢
  exact types_commaSeparated_print fewBehind

theorem parse_ofList_eq_iff {text type : List Char} :
    parse (String.ofList text) = [TypeText.normalize (String.ofList type)] ↔
      types text = [normalForm type] := by
  rw [parse, TypeText.normalize, String.toList_ofList, String.toList_ofList, ← List.map_singleton,
    List.map_inj_right fun _ _ => String.ofList_inj.mp]

/-- Blanks around a sign within a type make no difference exactly if no blank is needed there.
Between a type with fewer than 2^32 opening brackets and a name one blank is enough for the type to
be read; without any it is read exactly if it ends with a blank and signs. -/
theorem spacing_around_sign {sign : Char} (isSign : isReferenceSign sign = true)
    (left right : String) {type name : List Char} (isType : IsType type) (few : HasFewBrackets type)
    (isName : IsParameterName name) :
    (TypeText.normalize (left ++ sign.toString ++ right) =
        TypeText.normalize (left ++ " " ++ sign.toString ++ " " ++ right) ↔
      needsBlank left.toList right.toList = false) ∧
    parse (String.ofList (type ++ sign :: ' ' :: name)) =
      [TypeText.normalize (String.ofList type)] ∧
    parse (String.ofList (type ++ ' ' :: sign :: name)) =
      [TypeText.normalize (String.ofList type)] ∧
    parse (String.ofList (type ++ ' ' :: sign :: ' ' :: name)) =
      [TypeText.normalize (String.ofList type)] ∧
    (parse (String.ofList (type ++ sign :: name)) = [TypeText.normalize (String.ofList type)] ↔
      endsWithSpacedSigns type = true) := by
  have areSigns : ∀ other ∈ [sign], isReferenceSign other = true := by simpa using isSign
  have plain := (facts_of_isReferenceSign isSign).1
  have within : TypeText.normalize (left ++ sign.toString ++ right) =
      TypeText.normalize (left ++ " " ++ sign.toString ++ " " ++ right) ↔
        needsBlank left.toList right.toList = false := by
    rw [TypeText.normalize, TypeText.normalize, String.ofList_inj]
    simpa using normalForm_spaced_iff isSign left.toList right.toList
  have behindType : types (type ++ sign :: ' ' :: name) = [normalForm type] := by
    have read := types_behind_space (isType.append_suffix (.sign isSign))
      (few.append_plain (by simpa using plain)) isName (List.forall_mem_nil _)
    rw [normalForm_append_signs type areSigns] at read
    simpa using read
  have around : types (type ++ ' ' :: sign :: ' ' :: name) = [normalForm type] := by
    have spaced : normalForm (type ++ [' '] ++ [sign]) = normalForm (type ++ [' ']) :=
      normalForm_append_signs _ areSigns
    rw [normalForm_append_blank type (show isBlank ' ' = true from rfl), List.append_assoc] at spaced
    have read := types_behind_space (isType.append_suffix (.spacedSign isSign))
      (few.append_plain (List.forall_mem_cons.mpr ⟨rfl, by simpa using plain⟩)) isName
      (List.forall_mem_nil _)
    rw [List.singleton_append] at spaced
    rw [spaced] at read
    simpa using read
  have unspaced : types (type ++ sign :: name) = [normalForm type] ↔
      endsWithSpacedSigns type = true := by
    rw [types_unspaced isType isName isSign few, List.singleton_inj]
    exact normalForm_typePart_iff isType isName isSign few
  have inFront := types_behind_space isType few isName areSigns
  exact ⟨within, parse_ofList_eq_iff.mpr behindType, parse_ofList_eq_iff.mpr inFront,
    parse_ofList_eq_iff.mpr around, parse_ofList_eq_iff.trans unspaced⟩

/-- The type `Hit *` ends with a blank and a sign, so that its name is found behind another sign. -/
theorem spacing_around_sign_hits :
    TypeText.normalize ("vector<const Hit" ++ "*" ++ "> const") =
        TypeText.normalize ("vector<const Hit" ++ " " ++ "*" ++ " " ++ "> const") ∧
      parse "Hit ** hits" = ["Hit"] ∧ parse "Hit * *hits" = ["Hit"] ∧
      parse "Hit * * hits" = ["Hit"] ∧ parse "Hit **hits" = ["Hit"] := by
  have isType : IsType (leading false ++ ("Hit".toList ++ [' ', '*'])) :=
    .named false (.name (by decide) (by decide)) (.append (.spacedSign rfl) .nil)
  have isName : IsParameterName "hits".toList := ⟨by decide, by decide, by decide⟩
  obtain ⟨within, behind, before, around, unspaced⟩ :=
    @spacing_around_sign '*' rfl "vector<const Hit" "> const" _ _ isType (by decide) isName
  have normal : TypeText.normalize
      (String.ofList (leading false ++ ("Hit".toList ++ [' ', '*']))) = "Hit" := by
    decide
  rw [normal] at behind before around unspaced
  exact ⟨within.mpr (by decide), behind, before, around, unspaced.mpr (by decide)⟩

/-- Without blanks `char*const` is read as the word `charconst` and `int&n` as the type `intn`. -/
theorem spacing_around_sign_matters :
    (¬ ∀ (sign : Char), isReferenceSign sign = true → ∀ left right : String,
      TypeText.normalize (left ++ sign.toString ++ right) =
        TypeText.normalize (left ++ " " ++ sign.toString ++ " " ++ right)) ∧
    ¬ ∀ (sign : Char), isReferenceSign sign = true → ∀ type name : List Char, IsType type →
      IsParameterName name →
        parse (String.ofList (type ++ sign :: name)) = [TypeText.normalize (String.ofList type)] := by
  constructor
  · intro same
    exact absurd (same '*' rfl "char" "const") (by decide)
  · intro read
    have isType : IsType (leading false ++ ("int".toList ++ [])) :=
      .named false (.name (by decide) (by decide)) .nil
    exact absurd (read '&' rfl _ "n".toList isType ⟨by decide, by decide, by decide⟩) (by decide)

end ScriptRegistrar.Written
