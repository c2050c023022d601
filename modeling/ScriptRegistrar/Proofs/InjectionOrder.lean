import ScriptRegistrar.Proofs.LastInjection

/-!
# Injections in either order

An update writes behind the brace of its own constructor and nowhere else.  What it reads of the
rest of the text is the line ending and the indentation of the line its constructor starts on.
Two updates that do not write what the other one reads give the same text in either order.
-/

namespace ScriptRegistrar

open Text Bracketed

namespace Constructor

/-- The line on which the name of a constructor stands, counted from the first one as 0. -/
def firstLine (constructor : Constructor) : Nat :=
  constructor.start.passed.count '\n'

/-- The line on which the closing brace of a constructor stands. -/
def lastLine (constructor : Constructor) : Nat :=
  constructor.opened.passed.count '\n' + constructor.body.count '\n'

/-- Whether two constructors of a text have no line in common. -/
def ShareNoLine (one another : Constructor) : Prop :=
  one.lastLine < another.firstLine ∨ another.lastLine < one.firstLine

instance (one another : Constructor) : Decidable (ShareNoLine one another) :=
  inferInstanceAs (Decidable (one.lastLine < another.firstLine ∨ another.lastLine < one.firstLine))

/-- The blanks that the last line of a text starts with. -/
def marginBehind (before : List Char) : List Char :=
  (before.reverse.takeWhile (· ≠ '\n')).reverse.takeWhile isBlank

theorem marginBehind_append {gap : List Char} (lineFeed : '\n' ∈ gap) (before other : List Char) :
    marginBehind (before ++ gap) = marginBehind (other ++ gap) := by
  obtain ⟨last, others, shape, oneLine⟩ :=
    List.eq_append_cons_of_mem (List.mem_reverse.mpr lineFeed)
  have stops : ∀ front : List Char, (front ++ gap).reverse.takeWhile (· ≠ '\n') = last := by
    intro front
    rw [List.reverse_append, shape, List.append_assoc,
      List.takeWhile_append_of_pos (ne_lineFeed_of_oneLine oneLine), List.cons_append,
      List.takeWhile_cons_of_neg (by simp), List.append_nil]
  rw [marginBehind, marginBehind, stops, stops]

variable {className otherName text before front body behind : List Char}

theorem HeadFree.of_words (isWordText : IsWordText className) (absent : className ∉ wordsIn text) :
    HeadFree className text := by
  rintro before rest rfl
  cases read : readHead? className ⟨before.reverse, rest⟩ with
  | none => rfl
  | some result =>
      obtain ⟨outside, named⟩ := begins_readHead? isWordText _ _ read
      rw [wordsIn_append_of_ended rest outside] at absent
      cases rest with
      | nil => exact (isWordText.1 named.symm).elim
      | cons next others =>
          by_cases letter : isWord next = true
          · rw [List.takeWhile_cons_of_pos letter] at named
            rw [wordsIn_cons_of_isWord others letter, named] at absent
            simp at absent
          · rw [List.takeWhile_cons_of_neg letter] at named
            exact (isWordText.1 named.symm).elim

namespace FoundAt

variable {otherBefore otherFront otherBody otherBehind : List Char}
  (isName : IsClassName className) (otherIsName : IsClassName otherName)
  (found : FoundAt className text before front body behind)
  (other : FoundAt otherName text otherBefore otherFront otherBody otherBehind)

include isName otherIsName found other

theorem inFront_cases (different : className ≠ otherName) (free : HeadFree otherName body)
    (otherFree : HeadFree className otherBody) :
    (∃ gap, otherBefore = before ++ (front ++ '\x7b' :: (body ++ '\x7d' :: gap)) ∧
      behind = gap ++ (otherFront ++ '\x7b' :: (otherBody ++ '\x7d' :: otherBehind))) ∨
    ∃ gap, before = otherBefore ++ (otherFront ++ '\x7b' :: (otherBody ++ '\x7d' :: gap)) ∧
      otherBehind = gap ++ (front ++ '\x7b' :: (body ++ '\x7d' :: behind)) := by
  rcases other_cases isName otherIsName found other different free with
    ⟨gap, inFront, _⟩ | ⟨gap, later, rfl, rfl, _⟩ | behindFirst
  · rcases other_cases otherIsName isName other found (Ne.symm different) otherFree with
      ⟨further, inFrontToo, _⟩ | ⟨further, later, rfl, rfl, _⟩ | behindSecond
    · -- Each of them would stand in front of the other one.
      have lengths := congrArg List.length inFront
      have otherLengths := congrArg List.length inFrontToo
      simp only [List.length_append, List.length_cons] at lengths otherLengths
      omega
    · rw [← List.append_assoc] at other
      exact (other.not_headFree otherIsName.isWordText _ (by simpa using free)).elim
    · exact Or.inr behindSecond
  · rw [← List.append_assoc] at found
    exact (found.not_headFree isName.isWordText _ otherFree).elim
  · exact Or.inl behindFirst

end FoundAt

theorem FoundAt.lines_eq {constructor : Constructor} (isName : IsClassName className)
    (found : find? className text = some constructor)
    (foundAt : FoundAt className text before front constructor.body constructor.behind) :
    constructor.firstLine = before.count '\n' ∧
      constructor.lastLine = (before ++ (front ++ '\x7b' :: constructor.body)).count '\n' := by
  have same := foundAt.find?_eq isName
  rw [found, Option.some.injEq] at same
  have start := congrArg (·.start.passed) same
  have opened := congrArg (·.opened.passed) same
  simp only at start opened
  rw [firstLine, lastLine, start, opened]
  simp only [List.count_append, List.count_cons, List.count_reverse]
  refine ⟨trivial, ?_⟩
  omega

theorem ShareNoLine.lineFeed_mem {one another : Constructor} {otherFront gap : List Char}
    (apart : ShareNoLine one another) (isName : IsClassName className)
    (otherIsName : IsClassName otherName) (found : find? className text = some one)
    (otherFound : find? otherName text = some another)
    (foundAt : FoundAt className text before front one.body one.behind)
    (otherAt : FoundAt otherName text
      (before ++ (front ++ '\x7b' :: (one.body ++ '\x7d' :: gap))) otherFront another.body
      another.behind) : '\n' ∈ gap := by
  obtain ⟨firstLine, lastLine⟩ := foundAt.lines_eq isName found
  obtain ⟨otherFirstLine, otherLastLine⟩ := otherAt.lines_eq otherIsName otherFound
  rw [ShareNoLine, firstLine, lastLine, otherFirstLine, otherLastLine] at apart
  simp only [List.count_append, List.count_cons_of_ne (show '\x7b' ≠ '\n' by decide),
    List.count_cons_of_ne (show '\x7d' ≠ '\n' by decide)] at apart
  have positive : 0 < gap.count '\n' := by omega
  exact List.count_pos_iff.mp positive

end Constructor

namespace Injection

open Constructor

variable {className statement text : String} {messages : List Message}
  {before front body behind : List Char}

theorem toList_inject_of_foundAt (isName : IsClassName className.toList)
    (foundAt : FoundAt className.toList text.toList before front body behind)
    (statement : String) (messages : List Message) :
    (inject className statement messages text).toList = before ++ (front ++ '\x7b' ::
      (renderBody (lineEnding text.toList) (marginBehind before)
        (bodyLines className statement messages body) ++ '\x7d' :: behind)) := by
  rw [toList_inject (foundAt.find?_eq isName), replaceBody]
  simp [Constructor.indent, marginBehind]

theorem headFree_updatedBody {ending indent other : List Char} (isEnding : IsEnding ending)
    (isIndent : IsIndent indent) (otherWord : IsWordText other)
    (isWordText : IsWordText className.toList) (statementBraceless : IsBraceless statement)
    (plain : ArePlain messages) (absent : other ∉ wordsIn body) :
    HeadFree other (renderBody ending indent (bodyLines className statement messages body)) := by
  have keptFree : HeadFree other (renderBody ending indent (keptLines statement body)) := by
    apply HeadFree.of_words otherWord
    intro named
    obtain ⟨line, kept, inLine⟩ := mem_words_renderBody isEnding isIndent named
    obtain ⟨_, _, source, inBody, rfl⟩ := isLine_of_mem_keptLines kept
    rw [wordsIn_trim] at inLine
    exact absent (mem_wordsIn_of_mem_lines inBody inLine)
  exact headFree_renderBody isEnding isIndent otherWord keptFree (braceless_registrations
    (isBraceless_of_isWordText isWordText) statementBraceless plain.braceless)

theorem ArePlain.lineEnding_inject (plain : ArePlain messages)
    (isWordText : IsWordText className.toList) (statementLine : '\n' ∉ statement.toList)
    (text : String) :
    lineEnding (inject className statement messages text).toList = lineEnding text.toList := by
  refine Injection.lineEnding_inject (fun message kept => ?_) text
  have oneLine := plain.oneLine message (mem_of_mem_keepFirst kept)
  refine ⟨oneLine_registration statementLine isWordText oneLine, ?_⟩
  rw [getLast?_registration]
  decide

theorem isIndent_marginBehind (before : List Char) : IsIndent (marginBehind before) :=
  isIndent_indent ⟨⟨before.reverse, []⟩, ⟨[], []⟩, [], []⟩

/-- The updates of two constructors may change their order if a line feed stands between them and
neither body names the class of the other one. -/
theorem inject_comm_of_inFront {first second : String} {others : List Message}
    {gap otherFront otherBody otherBehind : List Char} (isFirst : IsClassName first.toList)
    (isSecond : IsClassName second.toList) (plainStatement : IsPlain statement)
    (plain : ArePlain messages) (othersPlain : ArePlain others)
    (found : FoundAt first.toList text.toList before front body
      (gap ++ (otherFront ++ '\x7b' :: (otherBody ++ '\x7d' :: otherBehind))))
    (other : FoundAt second.toList text.toList
      (before ++ (front ++ '\x7b' :: (body ++ '\x7d' :: gap))) otherFront otherBody otherBehind)
    (lineFeed : '\n' ∈ gap) (unnamed : second.toList ∉ wordsIn body)
    (otherUnnamed : first.toList ∉ wordsIn otherBody) :
    inject second statement others (inject first statement messages text) =
      inject first statement messages (inject second statement others text) := by
  have firstText := toList_inject_of_foundAt isFirst found statement messages
  have secondText := toList_inject_of_foundAt isSecond other statement others
  have sameEnding := plain.lineEnding_inject isFirst.isWordText plainStatement.oneLine text
  have otherEnding := othersPlain.lineEnding_inject isSecond.isWordText plainStatement.oneLine text
  have newFree := headFree_updatedBody (isEnding_lineEnding text.toList)
    (isIndent_marginBehind before) isSecond.isWordText isFirst.isWordText plainStatement.braceless
    plain unnamed
  have otherNewFree := headFree_updatedBody (isEnding_lineEnding text.toList)
    (isIndent_marginBehind (before ++ (front ++ '\x7b' :: (body ++ '\x7d' :: gap))))
    isFirst.isWordText isSecond.isWordText plainStatement.braceless othersPlain otherUnnamed
  generalize newEq : renderBody (lineEnding text.toList) (marginBehind before)
    (bodyLines first statement messages body) = new at firstText newFree
  generalize otherNewEq : renderBody (lineEnding text.toList)
    (marginBehind (before ++ (front ++ '\x7b' :: (body ++ '\x7d' :: gap))))
    (bodyLines second statement others otherBody) = otherNew at secondText otherNewFree
  -- Each of them finds its constructor, with the body it had, in the text that the other one gives.
  have stayed : FoundAt first.toList (inject second statement others text).toList before front body
      (gap ++ (otherFront ++ '\x7b' :: (otherNew ++ '\x7d' :: otherBehind))) := by
    rw [← List.append_assoc] at found
    have exchanged := found.exchange_behind isFirst.isWordText otherNewFree
    rw [secondText]
    simpa only [List.append_assoc, List.cons_append] using exchanged
  have moved : FoundAt second.toList (inject first statement messages text).toList
      (before ++ (front ++ '\x7b' :: (new ++ '\x7d' :: gap))) otherFront otherBody otherBehind := by
    rw [← List.append_assoc] at other
    have exchanged := other.exchange_before isSecond.isWordText newFree
    rw [firstText]
    simpa only [List.append_assoc, List.cons_append] using exchanged
  have shape : ∀ inside : List Char, before ++ (front ++ '\x7b' :: (inside ++ '\x7d' :: gap)) =
      before ++ (front ++ '\x7b' :: (inside ++ ['\x7d'])) ++ gap := by
    intro inside
    simp
  have sameMargin : marginBehind (before ++ (front ++ '\x7b' :: (new ++ '\x7d' :: gap))) =
      marginBehind (before ++ (front ++ '\x7b' :: (body ++ '\x7d' :: gap))) := by
    rw [shape, shape]
    exact marginBehind_append lineFeed _ _
  apply String.toList_injective
  rw [toList_inject_of_foundAt isSecond moved, toList_inject_of_foundAt isFirst stayed, sameEnding,
    otherEnding, sameMargin, newEq, otherNewEq]
  simp only [List.append_assoc, List.cons_append]

/-- What an update of a class's constructor asks of a body, for another class to be updated before
or after it. -/
structure KeepsClearOf (statement other : String) (body : List Char) : Prop where
  unnamed : other.toList ∉ wordsIn body
  registrations : HasPlainRegistrations statement body

variable {first second : String} {others : List Message}

/-- An update gives another class no constructor. -/
theorem inject_comm_of_find?_eq_none (isFirst : IsClassName first.toList)
    (isSecond : IsClassName second.toList) (different : first ≠ second)
    (plainStatement : IsPlain statement) (plain : ArePlain messages)
    (keeps : ∀ constructor, find? first.toList text.toList = some constructor →
      KeepsClearOf statement second constructor.body)
    (notFound : find? second.toList text.toList = none) :
    inject second statement others (inject first statement messages text) =
      inject first statement messages (inject second statement others text) := by
  rw [inject_of_find?_eq_none notFound]
  cases found : find? first.toList text.toList with
  | none => rw [inject_of_find?_eq_none found, inject_of_find?_eq_none notFound]
  | some constructor =>
      obtain ⟨unnamed, registrations⟩ := keeps constructor found
      obtain ⟨before, front, foundAt⟩ := exists_foundAt isFirst found
      have balanced := plain.balanced_updatedBody isFirst.isWordText plainStatement.braceless found
        registrations
      apply inject_of_find?_eq_none
      rw [toList_inject found, foundAt.replaceBody_eq isFirst found]
      exact foundAt.find?_exchange_none isFirst isSecond
        (fun same => different (String.toList_injective same))
        (HeadFree.of_words isSecond.isWordText unnamed)
        (headFree_updatedBody (isEnding_lineEnding _) (isIndent_indent constructor)
          isSecond.isWordText isFirst.isWordText plainStatement.braceless plain unnamed)
        balanced notFound

/-- Injections into the constructors of two classes that share no line, and neither of which names
the other one, give the same text in either order. -/
theorem inject_comm (isFirst : IsClassName first.toList) (isSecond : IsClassName second.toList)
    (different : first ≠ second) (plainStatement : IsPlain statement)
    (plain : ArePlain messages) (othersPlain : ArePlain others)
    (apart : ∀ one another, find? first.toList text.toList = some one →
      find? second.toList text.toList = some another → ShareNoLine one another)
    (keeps : ∀ one, find? first.toList text.toList = some one →
      KeepsClearOf statement second one.body)
    (othersKeep : ∀ another, find? second.toList text.toList = some another →
      KeepsClearOf statement first another.body) :
    inject second statement others (inject first statement messages text) =
      inject first statement messages (inject second statement others text) := by
  cases otherFound : find? second.toList text.toList with
  | none =>
      exact inject_comm_of_find?_eq_none isFirst isSecond different plainStatement plain keeps
        otherFound
  | some another =>
  cases found : find? first.toList text.toList with
  | none =>
      exact (inject_comm_of_find?_eq_none isSecond isFirst (Ne.symm different) plainStatement
        othersPlain othersKeep found).symm
  | some one =>
      have unnamed := (keeps one found).unnamed
      have otherUnnamed := (othersKeep another otherFound).unnamed
      have noLine := apart one another found otherFound
      obtain ⟨before, front, foundAt⟩ := exists_foundAt isFirst found
      obtain ⟨otherBefore, otherFront, otherAt⟩ := exists_foundAt isSecond otherFound
      rcases foundAt.inFront_cases isFirst isSecond otherAt
        (fun same => different (String.toList_injective same))
        (HeadFree.of_words isSecond.isWordText unnamed)
        (HeadFree.of_words isFirst.isWordText otherUnnamed) with
        ⟨gap, rfl, behind⟩ | ⟨gap, rfl, behind⟩
      · have lineFeed := noLine.lineFeed_mem isFirst isSecond found otherFound foundAt otherAt
        rw [behind] at foundAt
        exact inject_comm_of_inFront isFirst isSecond plainStatement plain othersPlain foundAt
          otherAt lineFeed unnamed otherUnnamed
      · have lineFeed := ShareNoLine.lineFeed_mem (Or.symm noLine) isSecond isFirst otherFound found
          otherAt foundAt
        rw [behind] at otherAt
        exact (inject_comm_of_inFront isSecond isFirst plainStatement othersPlain plain otherAt
          foundAt lineFeed otherUnnamed unnamed).symm

theorem inject_comm_lamp :
    let text := "class Door \x7b\r\n  Door() \x7b\n" ++
      "    RegisterMessage(\"Shut\", &Door::Shut);\r\n" ++
      "    if (locked) \x7b bolt(); \x7d\n  \x7d\n\x7d;\r\n" ++
      "class Lamp \x7b\n\tLamp() noexcept \x7b dim(); \x7d\n\x7d;\n"
    let door := inject "Door" "RegisterMessage" [⟨"Open", "Open", [], .marker⟩]
    let lamp := inject "Lamp" "RegisterMessage" [⟨"Light", "Light", [], .marker⟩]
    (find? "Door".toList text.toList).isSome = true ∧
      (find? "Lamp".toList text.toList).isSome = true ∧ lamp (door text) = door (lamp text) := by
  intro text door lamp
  have isOpen : IsPlain "Open" := isPlain_of_isIdentifier (by decide)
  have isLight : IsPlain "Light" := isPlain_of_isIdentifier (by decide)
  have facts : (find? "Door".toList text.toList).any (fun one =>
      (find? "Lamp".toList text.toList).any fun another => decide (ShareNoLine one another ∧
        ("Lamp".toList ∉ wordsIn one.body ∧ HasPlainRegistrations "RegisterMessage" one.body) ∧
          "Door".toList ∉ wordsIn another.body ∧
            HasPlainRegistrations "RegisterMessage" another.body)) = true := by
    decide +kernel
  simp only [Option.any_eq_true, decide_eq_true_eq] at facts
  obtain ⟨one, found, another, otherFound, apart, doorKeeps, lampKeeps⟩ := facts
  refine ⟨by rw [found]; rfl, by rw [otherFound]; rfl, inject_comm
    ⟨isWordText_of_isIdentifier (by decide), by decide⟩
    ⟨isWordText_of_isIdentifier (by decide), by decide⟩ (by decide)
    (isPlain_of_isIdentifier (by decide)) (List.forall_mem_singleton.mpr ⟨isOpen, isOpen⟩)
    (List.forall_mem_singleton.mpr ⟨isLight, isLight⟩) ?_ ?_ ?_⟩
  · intro door lamp isDoor isLamp
    obtain rfl := Option.some.inj (found.symm.trans isDoor)
    obtain rfl := Option.some.inj (otherFound.symm.trans isLamp)
    exact apart
  · intro door isDoor
    obtain rfl := Option.some.inj (found.symm.trans isDoor)
    exact ⟨doorKeeps.1, doorKeeps.2⟩
  · intro lamp isLamp
    obtain rfl := Option.some.inj (otherFound.symm.trans isLamp)
    exact ⟨lampKeeps.1, lampKeeps.2⟩

end Injection

end ScriptRegistrar
