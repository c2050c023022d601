import ScriptRegistrar.Proofs.StaleRegistrations

/-!
# The last injection counts

A constructor is found by the text up to its opening brace.  So whatever an injection writes
behind the brace, the next one finds the same constructor, and if it is closed where it was, the
lines that stay are the same as well: of two injections into a class the second one decides what
is registered.
-/

namespace ScriptRegistrar

open Text Text.Cursor Text.Recogniser Bracketed

namespace Constructor

/-- Whether two places are the same but for what follows a brace: they stand in front of the brace
in the same text, or right behind it. -/
inductive SameUpTo (rest further : List Char) : Cursor → Cursor → Prop
  | before (passed mid : List Char) :
      SameUpTo rest further ⟨passed, mid ++ '\x7b' :: rest⟩ ⟨passed, mid ++ '\x7b' :: further⟩
  | behind (passed : List Char) : SameUpTo rest further ⟨passed, rest⟩ ⟨passed, further⟩

/-- Whether two heads that were read are the same but for what follows a brace. -/
structure SameHead (rest further : List Char) (left right : (Cursor × Cursor) × Cursor) : Prop where
  start : SameUpTo rest further left.1.1 right.1.1
  opened : SameUpTo rest further left.1.2 right.1.2
  next : SameUpTo rest further left.2 right.2

variable {className rest further : List Char}

theorem SameUpTo.passed_eq {left right : Cursor} (same : SameUpTo rest further left right) :
    right.passed = left.passed := by
  cases same <;> rfl

theorem length_lt_of_mem_occurrences {cursor : Cursor} {head : Cursor × Cursor}
    (member : head ∈ occurrences (readHead? className) cursor) :
    head.2.ahead.length < cursor.ahead.length := by
  obtain ⟨before, place, next, across, read⟩ :=
    exists_of_mem_occurrences (goesForward_readHead? className) member
  obtain ⟨_, opened, _⟩ := across_of_readHead? read
  have shorter := advances_readHead? className _ _ _ read
  rw [opened, across.length_ahead]
  omega

section

variable (isWordText : IsWordText className)

include isWordText

theorem readHead?_sameUpTo (passed mid rest further : List Char) :
    Option.Rel (SameHead rest further) (readHead? className ⟨passed, mid ++ '\x7b' :: rest⟩)
      (readHead? className ⟨passed, mid ++ '\x7b' :: further⟩) := by
  have decided := @isSome_readHead?_congr className rest isWordText passed passed mid further
    (by cases mid <;> rfl)
  cases reads : (readHead? className ⟨passed, mid ++ '\x7b' :: rest⟩).isSome with
  | false =>
      rw [reads] at decided
      rw [Option.isSome_eq_false_iff, Option.isNone_iff_eq_none] at reads decided
      rw [reads, decided]
      exact Option.Rel.none
  | true =>
      rw [reads] at decided
      by_cases brace : '\x7b' ∈ mid
      · -- The head ends at a brace in front of this one.
        obtain ⟨front, inner, rfl, noBrace⟩ := List.eq_append_cons_of_mem brace
        have start := @SameUpTo.before rest further passed (front ++ '\x7b' :: inner)
        have next := @SameUpTo.before rest further ('\x7b' :: (front.reverse ++ passed)) inner
        simp only [List.append_assoc, List.cons_append] at start reads decided ⊢
        rw [readHead?_eq_of_isSome isWordText noBrace reads,
          readHead?_eq_of_isSome isWordText noBrace decided]
        exact Option.Rel.some ⟨start, next, next⟩
      · have next := @SameUpTo.behind rest further ('\x7b' :: (mid.reverse ++ passed))
        rw [readHead?_eq_of_isSome isWordText brace reads,
          readHead?_eq_of_isSome isWordText brace decided]
        exact Option.Rel.some ⟨.before passed mid, next, next⟩

theorem firstFrom?_sameUpTo {passed mid : List Char} {head : Cursor × Cursor} {next : Cursor}
    (first : firstFrom? (readHead? className) passed (mid ++ '\x7b' :: rest) = some (head, next))
    (inFront : rest.length ≤ next.ahead.length) (further : List Char) :
    ∃ result, firstFrom? (readHead? className) passed (mid ++ '\x7b' :: further) = some result ∧
      SameHead rest further (head, next) result := by
  induction mid generalizing passed with
  | nil =>
      have nowhere := @readHead?_of_noParenthesis _ isWordText passed [] rest (by simp) (by simp)
      rw [List.nil_append] at nowhere first
      rw [firstFrom?, nowhere] at first
      have behind := firstFrom?_advances (advances_readHead? className) first
      omega
  | cons character others induction =>
      have same := readHead?_sameUpTo isWordText passed (character :: others) rest further
      rw [List.cons_append] at first ⊢
      rw [List.cons_append, List.cons_append] at same
      rw [firstFrom?] at first ⊢
      generalize readHead? className ⟨passed, character :: (others ++ '\x7b' :: rest)⟩ = here
        at first same
      generalize readHead? className ⟨passed, character :: (others ++ '\x7b' :: further)⟩ = there
        at same ⊢
      cases same with
      | none => exact induction first
      | some sameHead =>
          cases first
          exact ⟨_, rfl, sameHead⟩

/-- The first constructor's head in front of a brace is found whatever follows the brace. -/
theorem find?_occurrences_sameUpTo {passed mid : List Char} {head : Cursor × Cursor}
    (found : (occurrences (readHead? className) ⟨passed, mid ++ '\x7b' :: rest⟩).find?
      (fun head => !isDestructor head.1) = some head)
    (inFront : rest.length ≤ head.2.ahead.length) (further : List Char) :
    ∃ other, (occurrences (readHead? className) ⟨passed, mid ++ '\x7b' :: further⟩).find?
        (fun head => !isDestructor head.1) = some other ∧
      SameUpTo rest further head.1 other.1 ∧ SameUpTo rest further head.2 other.2 := by
  generalize length : mid.length = bound
  induction bound using Nat.strongRecOn generalizing passed mid with
  | ind bound induction =>
      cases search : first? (readHead? className) ⟨passed, mid ++ '\x7b' :: rest⟩ with
      | none =>
          rw [occurrences_eq_nil search] at found
          cases found
      | some pair =>
          obtain ⟨first, next⟩ := pair
          rw [occurrences_eq_cons (advances_readHead? className) search, List.find?_cons] at found
          have before : rest.length ≤ next.ahead.length := by
            split at found
            · cases found
              obtain ⟨_, place, _, reads, _⟩ := first_of_firstFrom? search
              rwa [(across_of_readHead? reads).2.1] at inFront
            · have later := length_lt_of_mem_occurrences (List.mem_of_find?_eq_some found)
              omega
          obtain ⟨⟨other, otherNext⟩, otherSearch, same⟩ :=
            firstFrom?_sameUpTo isWordText search before further
          change first? _ ⟨passed, mid ++ '\x7b' :: further⟩ = _ at otherSearch
          have sameTest : isDestructor other.1 = isDestructor first.1 := by
            rw [isDestructor, isDestructor, same.start.passed_eq]
          rw [occurrences_eq_cons (advances_readHead? className) otherSearch, List.find?_cons,
            sameTest]
          split at found
          · cases found
            exact ⟨other, rfl, same.start, same.opened⟩
          · have shorter := firstFrom?_advances (advances_readHead? className) search
            have later := length_lt_of_mem_occurrences (List.mem_of_find?_eq_some found)
            have sameNext := same.next
            simp only at sameNext
            cases sameNext with
            | behind passed => exact absurd inFront (Nat.not_le.mpr later)
            | before passed inner =>
                refine induction inner.length ?_ found rfl
                rw [← length]
                simpa using shorter

/-- A constructor whose body is replaced is found again, with the new body. -/
theorem find?_replaceBody {text body : List Char} {constructor : Constructor}
    (found : find? className text = some constructor) (balanced : Balanced '\x7b' '\x7d' body) :
    ∃ updated, find? className (Injection.replaceBody constructor body) = some updated ∧
      updated.start.passed = constructor.start.passed ∧
        updated.opened.passed = constructor.opened.passed ∧ updated.body = body ∧
          updated.behind = constructor.behind := by
  obtain ⟨before, passed, text_eq⟩ := (standsIn_of_find? found).opened
  simp only [find?, Option.bind_eq_bind, Option.bind_eq_some_iff] at found
  obtain ⟨⟨start, opened⟩, first, ⟨oldBody, behind⟩, closes, equality⟩ := found
  cases equality
  simp only at passed text_eq
  have shape : ∀ rest : List Char, opened.passed.reverse ++ rest =
      before.reverse ++ '\x7b' :: rest := by
    intro rest
    simp [passed]
  rw [shape] at text_eq
  rw [text_eq, Cursor.start] at first
  obtain ⟨⟨otherStart, otherOpened⟩, otherFirst, sameStart, sameOpened⟩ :=
    find?_occurrences_sameUpTo isWordText first (Nat.le_refl _) (body ++ '\x7d' :: behind)
  have behindBrace : otherOpened.ahead = body ++ '\x7d' :: behind := by
    simp only at sameOpened
    generalize aheadEq : opened.ahead = ahead at sameOpened
    cases sameOpened with
    | behind => rfl
    | before _ inner =>
        have lengths := congrArg List.length aheadEq
        simp only [List.length_append, List.length_cons] at lengths
        omega
  have closesNew : braces? otherOpened.ahead = some (body, behind) := by
    rw [behindBrace]
    exact close?_of_balanced (by decide) balanced behind
  refine ⟨⟨otherStart, otherOpened, body, behind⟩, ?_, sameStart.passed_eq, sameOpened.passed_eq,
    rfl, rfl⟩
  rw [Injection.replaceBody, List.append_assoc, shape]
  simp only [find?, Cursor.start, otherFirst, Option.bind_eq_bind, Option.bind_some, closesNew]

end

end Constructor

namespace Injection

open Constructor

/-- Whether a name stands on one line and holds no brace. -/
structure IsPlain (name : String) : Prop where
  oneLine : '\n' ∉ name.toList
  braceless : IsBraceless name

/-- Whether the names of some messages, and those of their functions, are plain. -/
def ArePlain (messages : List Message) : Prop :=
  ∀ message ∈ messages, IsPlain message.name ∧ IsPlain message.function

theorem isPlain_of_isWordText {name : String} (isWordText : IsWordText name.toList) :
    IsPlain name where
  oneLine := not_mem_of_test isWordText.2 (by decide)
  braceless := isBraceless_of_isWordText isWordText

theorem isPlain_of_isIdentifier {name : String} (identifier : isIdentifier name.toList = true) :
    IsPlain name :=
  isPlain_of_isWordText (isWordText_of_isIdentifier identifier)

/-- Whether no line of a body that holds the registration statement holds a brace. -/
def HasPlainRegistrations (statement : String) (body : List Char) : Prop :=
  ∀ line ∈ lines body, contains statement.toList line = true →
    ∀ character ∈ line, isBrace character = false

theorem hasPlainRegistrations_iff {statement : String} {body : List Char} :
    ((lines body).all fun line => !contains statement.toList line || line.all (!isBrace ·)) = true ↔
      HasPlainRegistrations statement body := by
  simp only [HasPlainRegistrations, List.all_eq_true, Bool.or_eq_true, Bool.not_eq_true',
    imp_iff_not_or, Bool.not_eq_true]

instance (statement : String) (body : List Char) :
    Decidable (HasPlainRegistrations statement body) :=
  decidable_of_iff _ hasPlainRegistrations_iff

theorem HasPlainRegistrations.balanced_keptLines {statement : String} {body : List Char}
    (plain : HasPlainRegistrations statement body) (balanced : Balanced '\x7b' '\x7d' body) :
    Balanced '\x7b' '\x7d' (keptLines statement body).flatten := by
  apply Injection.balanced_keptLines balanced
  intro line listed holds
  obtain ⟨source, inBody, rfl⟩ := List.mem_map.mp listed
  have wholeHolds : contains statement.toList source = true := by
    obtain ⟨front, tail, shape⟩ := (contains_iff _ _).mp holds
    obtain ⟨before, behind, whole, _⟩ := parts_of_trim source
    exact (contains_iff _ _).mpr ⟨before ++ front, tail ++ behind, by rw [whole, shape]; simp⟩
  have noBrace := plain source inBody wholeHolds
  exact .of_not_mem (fun member => absurd (noBrace _ (mem_of_mem_trim member)) (by decide))
    (fun member => absurd (noBrace _ (mem_of_mem_trim member)) (by decide))

variable {className statement : String} {earlier : List Message} {text : String}

namespace ArePlain

theorem oneLine (plain : ArePlain earlier) :
    ∀ message ∈ earlier, '\n' ∉ message.name.toList ∧ '\n' ∉ message.function.toList :=
  fun message member => ⟨(plain message member).1.oneLine, (plain message member).2.oneLine⟩

theorem braceless (plain : ArePlain earlier) :
    ∀ message ∈ earlier, IsBraceless message.name ∧ IsBraceless message.function :=
  fun message member => ⟨(plain message member).1.braceless, (plain message member).2.braceless⟩

theorem balanced_updatedBody (plain : ArePlain earlier)
    (isWordText : IsWordText className.toList) (statementBraceless : IsBraceless statement)
    {constructor : Constructor} (found : find? className.toList text.toList = some constructor)
    (registrations : HasPlainRegistrations statement constructor.body) :
    Balanced '\x7b' '\x7d' (renderBody (lineEnding text.toList) constructor.indent
      (bodyLines className statement earlier constructor.body)) := by
  have bodyBalanced := balanced_of_close? (by decide) (standsIn_of_find? found).closes
  exact (Injection.balanced_updatedBody (isEnding_lineEnding text.toList)
    (isIndent_indent constructor) (isBraceless_of_isWordText isWordText) statementBraceless
    plain.braceless constructor.body).mpr (registrations.balanced_keptLines bodyBalanced)

end ArePlain

theorem inject?_inject_of_balanced {constructor : Constructor}
    (isWordText : IsWordText className.toList) (areLines : AreLines className statement earlier)
    (found : find? className.toList text.toList = some constructor)
    (balanced : Balanced '\x7b' '\x7d' (renderBody (lineEnding text.toList) constructor.indent
      (bodyLines className statement earlier constructor.body))) (later : List Message) :
    inject? className statement later (inject className statement earlier text) =
      inject? className statement later text := by
  obtain ⟨updated, foundAgain, start, opened, body, behind⟩ :=
    find?_replaceBody isWordText found balanced
  rw [← toList_inject found] at foundAgain
  have sameIndent : updated.indent = constructor.indent := by
    rw [Constructor.indent, Constructor.indent, start]
  have sameLines : bodyLines className statement later updated.body =
      bodyLines className statement later constructor.body := by
    rw [body]
    exact bodyLines_renderBody (isEnding_lineEnding _) (isIndent_indent constructor) areLines later
      constructor.body
  simp only [inject?, update?, foundAgain, found, Option.map_some, replaceBody, sameIndent,
    sameLines, opened, behind, lineEnding_inject areLines.fitLines]

/-- Of two injections into one class the second one counts, whatever the first one registered: it
finds a constructor if it had found one before, and gives the text that it would have given. -/
theorem inject_inject (isWordText : IsWordText className.toList)
    (identifier : isIdentifier statement.toList = true) (plain : ArePlain earlier)
    (registrations : ∀ constructor, find? className.toList text.toList = some constructor →
      HasPlainRegistrations statement constructor.body) (later : List Message) :
    inject className statement later (inject className statement earlier text) =
        inject className statement later text ∧
      inject? className statement later (inject className statement earlier text) =
        inject? className statement later text := by
  cases found : find? className.toList text.toList with
  | none =>
      rw [inject_of_find?_eq_none found]
      exact ⟨rfl, rfl⟩
  | some constructor =>
      have balanced := plain.balanced_updatedBody isWordText
        (isBraceless_of_isIdentifier identifier) found (registrations constructor found)
      have same := inject?_inject_of_balanced isWordText
        (areLines_of_oneLine identifier isWordText plain.oneLine) found balanced later
      have updates : (inject? className statement later text).isSome = true := by
        simp [inject?, update?, found]
      obtain ⟨result, injected⟩ := Option.isSome_iff_exists.mp updates
      refine ⟨?_, same⟩
      generalize inject className statement earlier text = between at same ⊢
      rw [inject, inject, same, injected]
      rfl

/-- The braces around the statement that stays do not matter, nor do the mixed line endings. -/
theorem inject_inject_door :
    let text := "class Door : public ScriptBehaviour \x7b\r\n  Door() \x7b\n" ++
      "    if (locked) \x7b unlock(); \x7d\r\n    RegisterMessage(\"Shut\", &Door::Shut);\n" ++
      "  \x7d\r\n\x7d;\n"
    let inject := fun name => inject "Door" "RegisterMessage" [⟨name, name, [], .marker⟩]
    (find? "Door".toList text.toList).isSome = true ∧
      inject "Open" (inject "Knock" text) = inject "Open" text := by
  intro text inject
  have stale : (find? "Door".toList text.toList).all (fun constructor =>
      decide (HasPlainRegistrations "RegisterMessage" constructor.body)) = true := by
    decide +kernel
  have isKnock : IsPlain "Knock" := isPlain_of_isIdentifier (by decide)
  refine ⟨by decide +kernel, (inject_inject (isWordText_of_isIdentifier (by decide)) (by decide)
    (List.forall_mem_singleton.mpr ⟨isKnock, isKnock⟩) ?_ _).1⟩
  intro constructor found
  exact of_decide_eq_true ((Option.all_eq_true _ _).mp stale constructor found)

end Injection

end ScriptRegistrar
