import ScriptRegistrar.Proofs.Printing.ConstructedClass

/-!
# Searching printed classes for a constructor

A search for the constructor of a class passes over the heads of all classes, over the
constructors of other names and over the members, so that it finds the constructor of this class
or, if there is none, nothing at all.
-/

namespace ScriptRegistrar.Printing

open Text Text.Cursor Text.Recogniser Constructor

variable {config : Config} {markers : Markers} {className : List Char}
  (isWordText : IsWordText className)

include isWordText

theorem skips_printHead {model : ClassModel} (fits : IsName markers model.name)
    {baseClass : String} (base : isIdentifier baseClass.toList = true) {gap : List Char}
    (noBrace : '\x7b' ∉ gap) (passed rest : List Char) :
    Skips (readHead? className) passed (gap ++ (model.printHead baseClass ++ ['\x7b'])) rest := by
  have head : model.printHead baseClass = "class ".toList ++ (model.name.toList ++
      (" : public ".toList ++ (baseClass.toList ++ [' ']))) := rfl
  have shape : gap ++ (model.printHead baseClass ++ ['\x7b']) =
      (gap ++ ("class ".toList ++ (model.name.toList ++ " :".toList))) ++
        ((" public ".toList ++ (baseClass.toList ++ [' '])) ++ ['\x7b']) := by
    simp [head]
  have first : '\x7b' ∉ gap ++ ("class ".toList ++ (model.name.toList ++ " :".toList)) := by
    simp only [List.mem_append, not_or]
    exact ⟨noBrace, by decide, not_mem_of_isIdentifier fits.identifier (by decide), by decide⟩
  have second : ∀ sign ∈ ['\x7b', '('], sign ∉ " public ".toList ++ (baseClass.toList ++ [' ']) := by
    have signs : ∀ sign ∈ ['\x7b', '('], sign ∉ " public ".toList ∧ sign ∉ [' '] ∧
        isIdentifierChar sign = false :=
      List.forall_iff_forall_mem.mp (by decide)
    intro sign listed
    obtain ⟨inAccess, inSpace, separates⟩ := signs sign listed
    simp only [List.mem_append, not_or]
    exact ⟨inAccess, not_mem_of_isIdentifier base separates, inSpace⟩
  have ends : (gap ++ ("class ".toList ++ (model.name.toList ++ " :".toList))).getLast? =
      some ':' := by
    have colon : " :".toList = [' '] ++ [':'] := rfl
    rw [colon, ← List.append_assoc, ← List.append_assoc, ← List.append_assoc, List.getLast?_concat]
  rw [shape]
  exact (skips_of_stopper isWordText first ends (by decide) _ _).append
    (skips_of_noParenthesis isWordText (second _ (by simp)) (second _ (by simp)) _ _)

theorem skips_printLines (legible : markers.Legible) {model : ClassModel}
    (fits : model.WellFormed markers) (passed rest : List Char) :
    Skips (readHead? className) passed ('\n' :: (model.printLines markers ++ ['\x7d'])) rest := by
  refine @skips_of_stopper _ isWordText _ '\x7d' ?_ ?_ (by decide) passed rest
  · simp only [List.mem_cons, List.mem_append, not_or]
    exact ⟨by decide, ConstructedClass.noBrace_printLines legible fits, by decide, by simp⟩
  · rw [← List.cons_append, List.getLast?_concat]

namespace ConstructedClass

theorem skips_printClosed (legible : config.markers.Legible)
    (base : isIdentifier config.baseClass.toList = true) {script : ConstructedClass}
    (fits : script.WellFormed config.markers)
    (other : ¬ script.Constructs (String.ofList className)) {gap : List Char}
    (noBrace : '\x7b' ∉ gap) (passed rest : List Char) :
    Skips (readHead? className) passed (gap ++ script.printClosed config) rest := by
  cases inside : script.inside? with
  | none =>
      have shape : gap ++ script.printClosed config =
          gap ++ (script.model.printHead config.baseClass ++ ['\x7b']) ++
            '\n' :: (script.model.printLines config.markers ++ ['\x7d']) := by
        simp [printClosed, setup_of_none inside]
      rw [shape]
      exact (skips_printHead isWordText fits.model.name base noBrace _ _).append
        (skips_printLines isWordText legible fits.model _ _)
  | some text =>
      have different : script.model.name.toList ≠ className := by
        intro equality
        exact other ⟨by rw [inside]; rfl, by rw [← equality, String.ofList_toList]⟩
      have quiet := fits.inside text inside
      have shape : gap ++ script.printClosed config =
          gap ++ (script.model.printHead config.baseClass ++ ['\x7b']) ++
            ('\n' :: (script.model.name.toList ++ "() \x7b".toList) ++ ((text ++ ['\x7d']) ++
              '\n' :: (script.model.printLines config.markers ++ ['\x7d']))) := by
        simp [printClosed, setup_of_some inside]
      have clear : ∀ word ∈ wordsIn ('\n' :: (script.model.name.toList ++ "() \x7b".toList)),
          ¬ word = className := by
        have nothing : wordsIn "() \x7b".toList = [] := by decide
        rw [wordsIn_cons_of_not_isWord _ (by decide),
          wordsIn_word_append fits.model.name.isWordText rfl, nothing]
        intro word member
        rw [List.mem_singleton.mp member]
        exact different
      have outside : NotInWord ((gap ++ (script.model.printHead config.baseClass ++
          ['\x7b'])).reverse ++ passed) := by
        rw [List.reverse_append, List.reverse_append]
        exact notInWord_cons (by decide)
      rw [shape]
      refine (skips_printHead isWordText fits.model.name base noBrace _ _).append
        (.append (firstFrom?_append_of_ended (begins_readHead? isWordText)
          (fun empty => isWordText.1 empty.symm) _ (by simp [NotInWord]; decide) outside clear)
            (.append (skips_of_stopper isWordText (by simp [quiet.noOpening])
              (List.getLast?_concat) (by decide) _ _)
                (skips_printLines isWordText legible fits.model _ _)))

theorem skips_printAll (legible : config.markers.Legible)
    (base : isIdentifier config.baseClass.toList = true) {scripts : List ConstructedClass}
    (fit : ∀ script ∈ scripts, script.WellFormed config.markers)
    (others : ∀ script ∈ scripts, ¬ script.Constructs (String.ofList className))
    {gap : List Char} (noBrace : '\x7b' ∉ gap) (passed : List Char) :
    ∃ stretch behind, gap ++ printAll config scripts = stretch ++ behind ∧ '\x7b' ∉ behind ∧
      ∀ rest, Skips (readHead? className) passed stretch (behind ++ rest) := by
  induction scripts generalizing gap passed with
  | nil => exact ⟨[], gap, by simp [printAll], noBrace, fun _ => rfl⟩
  | cons script rest induction =>
      obtain ⟨scriptFits, restFit⟩ := List.forall_mem_cons.mp fit
      obtain ⟨scriptOther, restOther⟩ := List.forall_mem_cons.mp others
      obtain ⟨stretch, behind, parts, absent, skips⟩ := @induction restFit restOther ";\n".toList
        (by decide) ((gap ++ script.printClosed config).reverse ++ passed)
      refine ⟨gap ++ script.printClosed config ++ stretch, behind, ?_, absent, fun text => ?_⟩
      · rw [List.append_assoc, ← parts, printAll, List.flatMap_cons, print_eq]
        simp [printAll]
      · exact (skips_printClosed isWordText legible base scriptFits scriptOther noBrace _ _).append
          (skips text)

theorem readHead?_printed {passed : List Char} (outside : NotInWord passed) (rest : List Char) :
    readHead? className ⟨passed, className ++ '(' :: ')' :: ' ' :: '\x7b' :: rest⟩ =
      some ((⟨passed, className ++ '(' :: ')' :: ' ' :: '\x7b' :: rest⟩,
        ⟨'\x7b' :: ' ' :: ')' :: '(' :: (className.reverse ++ passed), rest⟩),
          ⟨'\x7b' :: ' ' :: ')' :: '(' :: (className.reverse ++ passed), rest⟩) := by
  have boundary := isBoundary_marker outside isWordText ('(' :: ')' :: ' ' :: '\x7b' :: rest)
  have blank := @passBlanks_space (')' :: '(' :: (className.reverse ++ passed)) ('\x7b' :: rest) rfl
  have noException : passException
      ⟨' ' :: ')' :: '(' :: (className.reverse ++ passed), '\x7b' :: rest⟩ =
        ⟨' ' :: ')' :: '(' :: (className.reverse ++ passed), '\x7b' :: rest⟩ := rfl
  have opens : (Cursor.mk (' ' :: ')' :: '(' :: (className.reverse ++ passed))
      ('\x7b' :: rest)).sign? "\x7b" =
        some ⟨'\x7b' :: ' ' :: ')' :: '(' :: (className.reverse ++ passed), rest⟩ :=
    literal?_append _ "\x7b".toList rest
  simp only [readHead?, boundary, guard, if_true, Option.bind_eq_bind, Option.pure_def,
    Option.bind_some, literal?_append, sign?_passBlanks_opening, sign?_passBlanks_closing, blank,
    noException, opens]

theorem find?_printAll_eq_none (legible : config.markers.Legible)
    (base : isIdentifier config.baseClass.toList = true) {scripts : List ConstructedClass}
    (fit : ∀ script ∈ scripts, script.WellFormed config.markers)
    (others : ∀ script ∈ scripts, ¬ script.Constructs (String.ofList className)) :
    find? className (printAll config scripts) = none := by
  obtain ⟨stretch, behind, parts, noBrace, skips⟩ :=
    @skips_printAll _ _ isWordText legible base scripts fit others [] (by simp) []
  have passes := skips []
  rw [List.nil_append] at parts
  rw [Skips, List.append_nil, ← parts, firstFrom?_of_noBrace isWordText noBrace] at passes
  have nothing : occurrences (readHead? className) (Cursor.start (printAll config scripts)) = [] :=
    occurrences_eq_nil passes
  simp [find?, nothing]

/-- A constructor behind a stretch that a search passes over is the one that it finds. -/
theorem find?_of_skips {outer inside behind : List Char}
    (skips : Skips (readHead? className) [] (outer ++ ['\x7b', '\n'])
      (className ++ '(' :: ')' :: ' ' :: '\x7b' :: (inside ++ '\x7d' :: behind)))
    (balanced : Bracketed.Balanced '\x7b' '\x7d' inside) :
    ∃ constructor, find? className (outer ++ ['\x7b', '\n'] ++
        (className ++ '(' :: ')' :: ' ' :: '\x7b' :: (inside ++ '\x7d' :: behind))) =
          some constructor ∧
      constructor.body = inside ∧ constructor.indent = [] ∧
        ∀ body, Injection.replaceBody constructor body = outer ++ ['\x7b', '\n'] ++
          (className ++ '(' :: ')' :: ' ' :: '\x7b' :: (body ++ '\x7d' :: behind)) := by
  generalize front : outer ++ ['\x7b', '\n'] = before at skips ⊢
  have start : before.reverse = '\n' :: '\x7b' :: outer.reverse := by
    rw [← front]
    simp
  have ended : NotInWord before.reverse := by
    rw [start]
    exact notInWord_cons (by decide)
  have read := readHead?_printed isWordText ended (inside ++ '\x7d' :: behind)
  have first : first? (readHead? className) (Cursor.start (before ++
      (className ++ '(' :: ')' :: ' ' :: '\x7b' :: (inside ++ '\x7d' :: behind)))) =
        readHead? className ⟨before.reverse, className ++ '(' :: ')' :: ' ' :: '\x7b' ::
          (inside ++ '\x7d' :: behind)⟩ := by
    rw [Cursor.start, first?, skips, List.append_nil, read]
    exact firstFrom?_eq_some_of_read read
  have found := occurrences_eq_cons (advances_readHead? className) (first.trans read)
  have closes := Bracketed.close?_of_balanced (by decide) balanced behind
  have noTilde : isDestructor ⟨before.reverse, className ++ '(' :: ')' :: ' ' :: '\x7b' ::
      (inside ++ '\x7d' :: behind)⟩ = false := by
    rw [start]
    rfl
  refine ⟨⟨⟨before.reverse, className ++ '(' :: ')' :: ' ' :: '\x7b' ::
    (inside ++ '\x7d' :: behind)⟩, ⟨'\x7b' :: ' ' :: ')' :: '(' :: (className.reverse ++
      before.reverse), inside ++ '\x7d' :: behind⟩, inside, behind⟩, ?_, rfl, ?_, ?_⟩
  · rw [find?, found, Option.bind_eq_bind, List.find?_cons_of_pos (by simp [noTilde])]
    simp only [Option.bind_some, Option.bind_eq_bind, Bracketed.braces?, closes]
  · simp [indent, start]
  · intro body
    simp [Injection.replaceBody]

omit isWordText

theorem exists_printAll_around (left right : List ConstructedClass) (script : ConstructedClass) :
    ∃ behind, ∀ inside, printAll config (left ++ { script with inside? := some inside } :: right) =
      printAll config left ++ script.model.printHead config.baseClass ++ ['\x7b', '\n'] ++
        (script.model.name.toList ++ '(' :: ')' :: ' ' :: '\x7b' ::
          (inside ++ '\x7d' :: behind)) := by
  refine ⟨'\n' :: (script.model.printLines config.markers ++ '\x7d' ::
    (";\n".toList ++ printAll config right)), fun inside => ?_⟩
  simp [printAll, print_eq, printClosed, setup]

include isWordText

theorem skips_printAll_head (legible : config.markers.Legible)
    (base : isIdentifier config.baseClass.toList = true) {scripts : List ConstructedClass}
    (fit : ∀ script ∈ scripts, script.WellFormed config.markers)
    (others : ∀ script ∈ scripts, ¬ script.Constructs (String.ofList className))
    {model : ClassModel} (fits : IsName config.markers model.name) (rest : List Char) :
    Skips (readHead? className) []
      (printAll config scripts ++ model.printHead config.baseClass ++ ['\x7b', '\n']) rest := by
  obtain ⟨stretch, gap, parts, noBrace, skips⟩ :=
    @skips_printAll _ _ isWordText legible base scripts fit others [] (by simp) []
  rw [List.nil_append] at parts
  have shape : printAll config scripts ++ model.printHead config.baseClass ++ ['\x7b', '\n'] =
      stretch ++ (gap ++ (model.printHead config.baseClass ++ ['\x7b']) ++ ['\n']) := by
    rw [parts]
    simp
  rw [shape]
  refine .append ?_ (.append (skips_printHead isWordText fits base noBrace _ _) ?_)
  · have past := skips (model.printHead config.baseClass ++ ['\x7b'] ++ ['\n'] ++ rest)
    simpa using past
  · refine firstFrom?_append_of_ended (begins_readHead? isWordText)
      (fun empty => isWordText.1 empty.symm) _ (notInWord_cons (by decide)) ?_ ?_
    · rw [List.reverse_append, List.reverse_append, List.append_assoc]
      exact notInWord_cons (by decide)
    · rw [wordsIn_cons_of_not_isWord _ (by decide), wordsIn_nil]
      exact List.forall_mem_nil _

/-- The constructor of a class is found in the class, and nothing else is replaced with its
body. -/
theorem find?_printAll (legible : config.markers.Legible)
    (base : isIdentifier config.baseClass.toList = true) {left right : List ConstructedClass}
    (leftFit : ∀ script ∈ left, script.WellFormed config.markers)
    (others : ∀ script ∈ left, ¬ script.Constructs (String.ofList className))
    {script : ConstructedClass} (fits : script.WellFormed config.markers)
    (named : script.model.name.toList = className) {inside : List Char}
    (constructs : script.inside? = some inside) :
    ∃ constructor, find? className (printAll config (left ++ script :: right)) = some constructor ∧
      constructor.body = inside ∧ constructor.indent = [] ∧
        ∀ body, Injection.replaceBody constructor body =
          printAll config (left ++ { script with inside? := some body } :: right) := by
  have quiet := fits.inside inside constructs
  obtain ⟨behind, around⟩ := @exists_printAll_around config left right script
  rw [named] at around
  have whole : { script with inside? := some inside } = script := by rw [← constructs]
  have skips := skips_printAll_head isWordText legible base leftFit others fits.model.name
    (className ++ '(' :: ')' :: ' ' :: '\x7b' :: (inside ++ '\x7d' :: behind))
  have found := find?_of_skips isWordText skips
    (Bracketed.Balanced.of_not_mem quiet.noOpening quiet.noClosing)
  simp only [← around] at found
  rwa [whole] at found

end ConstructedClass

end ScriptRegistrar.Printing
