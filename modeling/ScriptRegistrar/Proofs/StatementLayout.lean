import ScriptRegistrar.Proofs.StaleRegistrations

/-!
# Statements and lines

An update goes by the lines of a constructor, not by its statements: what stands on a line with
the registration statement goes, and everything else stays.  How the statements are laid out
matters for that.  Where the lines that hold the registration statement are those of its calls,
the calls go and the other statements stay, each as a whole.
-/

namespace ScriptRegistrar.Injection

open Text Constructor

def withoutBlanks (text : List Char) : List Char :=
  text.filter (!isBlank ·)

/-- The line that a place between two parts of a text stands on, without the blanks around it. -/
def lineAt (before after : List Char) : List Char :=
  trim ((before.reverse.takeWhile (· ≠ '\n')).reverse ++ after.takeWhile (· ≠ '\n'))

/-- The characters of a part of a body, but for its blanks, that stand on lines without the
registration statement.  The part stands between `before` and `after`. -/
def staying (statement : String) (before : List Char) : List Char → List Char → List Char
  | [], _ => []
  | character :: rest, after =>
    if isBlank character ||
        contains statement.toList (lineAt before (character :: (rest ++ after))) then
      staying statement (before ++ [character]) rest after
    else character :: staying statement (before ++ [character]) rest after

/-- Whether a statement of a body is a call of the registration statement. -/
def isCall (statement : String) (piece : List Char) : Bool :=
  statement.toList.isPrefixOf (trimStart piece) &&
    (((trimStart piece).drop statement.toList.length).dropWhile isBlank).head? = some '('

/-- The registrations of some messages, without blanks. -/
def solidRegistrations (className statement : String) (messages : List Message) : List Char :=
  withoutBlanks ((keepFirst (·.function) messages).map (registration className statement)).flatten

/-- Whether the lines of a body that hold the registration statement are those of its calls: every
character of a call stands on such a line, and no character of another statement does.  The pieces
of the body are its statements. -/
def LaidOut (statement : String) (pieces : List (List Char)) : Prop :=
  ∀ (index : Fin pieces.length) (place : Fin (pieces.get index).length),
    isBlank ((pieces.get index).get place) = false →
      contains statement.toList
          (lineAt ((pieces.take index).flatten ++ (pieces.get index).take place)
            ((pieces.get index).drop place ++ (pieces.drop (index + 1)).flatten)) =
        isCall statement (pieces.get index)

instance (statement : String) (pieces : List (List Char)) : Decidable (LaidOut statement pieces) :=
  Nat.decidableForallFin _

theorem not_solid_of_isBlank (character : Char) (blank : isBlank character = true) :
    (!isBlank character) = false := by
  rw [blank]
  rfl

theorem staying_append (statement : String) (before left right after : List Char) :
    staying statement before (left ++ right) after =
      staying statement before left (right ++ after) ++
        staying statement (before ++ left) right after := by
  induction left generalizing before with
  | nil => simp [staying]
  | cons character others induction =>
      have step := induction (before ++ [character])
      rw [List.append_assoc, List.singleton_append] at step
      rw [List.cons_append, staying, staying, List.append_assoc, step]
      split
      · rfl
      · rfl

theorem staying_of_uniform {statement : String} {before part after : List Char} {holds : Bool}
    (uniform : ∀ left character right, part = left ++ character :: right →
      isBlank character = false → contains statement.toList
        (lineAt (before ++ left) (character :: (right ++ after))) = holds) :
    staying statement before part after = if holds then [] else withoutBlanks part := by
  induction part generalizing before with
  | nil => simp [staying, withoutBlanks]
  | cons character others induction =>
      have later : staying statement (before ++ [character]) others after =
          if holds then [] else withoutBlanks others := by
        apply induction
        intro left next right shape solid
        have here := uniform (character :: left) next right (by rw [shape]; rfl) solid
        rwa [← List.singleton_append, ← List.append_assoc] at here
      rw [staying, later]
      cases blank : isBlank character with
      | true => simp [withoutBlanks, blank]
      | false =>
          have here := uniform [] character others rfl blank
          rw [List.append_nil] at here
          rw [here]
          cases holds <;> simp [withoutBlanks, blank]

/-- Whether a text ends where a line starts. -/
def EndsAtLineStart (before : List Char) : Prop :=
  before.reverse.takeWhile (· ≠ '\n') = []

theorem lineAt_of_line {before left right after : List Char} (ended : EndsAtLineStart before)
    (oneLine : '\n' ∉ left ++ right) (follows : after.takeWhile (· ≠ '\n') = []) :
    lineAt (before ++ left) (right ++ after) = trim (left ++ right) := by
  rw [List.mem_append, not_or] at oneLine
  have passesLeft := @ne_lineFeed_of_oneLine left.reverse (by simpa using oneLine.1)
  have passesRight := ne_lineFeed_of_oneLine oneLine.2
  rw [lineAt, List.reverse_append, List.takeWhile_append_of_pos passesLeft, ended,
    List.takeWhile_append_of_pos passesRight, follows]
  simp

theorem staying_line {statement : String} {before line after : List Char}
    (ended : EndsAtLineStart before) (oneLine : '\n' ∉ line) (follows : after.takeWhile (· ≠ '\n') = []) :
    staying statement before line after = withoutBlanks (keptLines statement line).flatten := by
  have uniform : ∀ left character right, line = left ++ character :: right →
      isBlank character = false → contains statement.toList
        (lineAt (before ++ left) (character :: (right ++ after))) =
          contains statement.toList (trim line) := by
    rintro left character right rfl _
    rw [← List.cons_append, lineAt_of_line ended oneLine follows]
  have whole : withoutBlanks (trim line) = withoutBlanks line :=
    filter_trim not_solid_of_isBlank line
  rw [staying_of_uniform uniform, keptLines, lines_of_not_mem oneLine, List.map_singleton, ← whole]
  cases goes : contains statement.toList (trim line) with
  | true => simp [goes, withoutBlanks]
  | false =>
      cases shape : trim line with
      | nil => simp [withoutBlanks]
      | cons first others =>
          rw [shape] at goes
          simp [goes]

theorem staying_eq_keptLines {statement : String} {before : List Char}
    (ended : EndsAtLineStart before) (body : List Char) :
    staying statement before body [] = withoutBlanks (keptLines statement body).flatten := by
  induction body using lines_induction generalizing before with
  | last line oneLine => exact staying_line ended oneLine rfl
  | line first rest noBreak induction =>
      have atLineStart : EndsAtLineStart (before ++ first ++ ['\n']) := by
        simp [EndsAtLineStart]
      have kept : keptLines statement (first ++ '\n' :: rest) =
          keptLines statement first ++ keptLines statement rest := by
        simp [keptLines_eq_filter]
      have feed : isBlank '\n' = true := by decide
      rw [staying_append, staying_line ended noBreak (by simp), staying, feed, Bool.true_or,
        if_pos rfl, induction atLineStart, kept, List.flatten_append, withoutBlanks,
        withoutBlanks, withoutBlanks, List.filter_append]

theorem LaidOut.staying_eq {statement : String} {pieces : List (List Char)}
    (laidOut : LaidOut statement pieces) : staying statement [] pieces.flatten [] =
      withoutBlanks (pieces.filter (!isCall statement ·)).flatten := by
  suffices further : ∀ front back, pieces = front ++ back →
      staying statement front.flatten back.flatten [] =
        withoutBlanks (back.filter (!isCall statement ·)).flatten from further [] pieces rfl
  intro front back shape
  induction back generalizing front with
  | nil => simp [staying, withoutBlanks]
  | cons piece others induction =>
      have later := induction (front ++ [piece]) (by simpa using shape)
      rw [List.flatten_append, List.flatten_singleton] at later
      have uniform : ∀ left character right, piece = left ++ character :: right →
          isBlank character = false → contains statement.toList
            (lineAt (front.flatten ++ left) (character :: (right ++ (others.flatten ++ [])))) =
              isCall statement piece := by
        rintro left character right rfl solid
        subst shape
        have here := laidOut ⟨front.length, by simp⟩ ⟨left.length, by simp⟩
        simpa using here (by simpa using solid)
      rw [List.flatten_cons, staying_append, staying_of_uniform uniform, later]
      cases called : isCall statement piece with
      | true => simp [called]
      | false => simp [called, withoutBlanks]

/-- An update keeps what stands on the lines without the registration statement, in order, and
registers the messages behind it.  Where the lines with the statement are those of its calls, that
is every statement which is no call, and nothing of the calls. -/
theorem inject_statements {className text : String} {constructor : Constructor}
    (statement : String) (messages : List Message)
    (found : find? className.toList text.toList = some constructor) :
    ∃ updated, (inject className statement messages text).toList =
        constructor.opened.passed.reverse ++ updated ++ '\x7d' :: constructor.behind ∧
      withoutBlanks updated = staying statement [] constructor.body [] ++
        solidRegistrations className statement messages ∧
      ∀ pieces, pieces.flatten = constructor.body → LaidOut statement pieces →
        withoutBlanks updated = withoutBlanks (pieces.filter (!isCall statement ·)).flatten ++
          solidRegistrations className statement messages := by
  have characters : withoutBlanks (renderBody (lineEnding text.toList) constructor.indent
      (bodyLines className statement messages constructor.body)) =
        staying statement [] constructor.body [] ++
          solidRegistrations className statement messages := by
    rw [withoutBlanks, filter_renderBody not_solid_of_isBlank (isEnding_lineEnding _)
      (isIndent_indent constructor), bodyLines, List.flatten_append, List.filter_append,
      staying_eq_keptLines (show EndsAtLineStart [] from rfl)]
    rfl
  refine ⟨_, toList_inject found, characters, ?_⟩
  intro pieces parts laidOut
  rw [characters, ← parts, laidOut.staying_eq]

/-- Statements may share a line, and a statement may be wrapped, if the calls keep to lines of their
own. -/
theorem inject_statements_door :
    let text := "Door() \x7b\n  speed = 4; open = 0;\n  RegisterMessage(\"Shut\", &Door::Shut); " ++
      "RegisterMessage(\"Knock\", &Door::Knock);\n  lock(\n    2);\n\x7d\n"
    ∃ constructor updated, find? "Door".toList text.toList = some constructor ∧
      (inject "Door" "RegisterMessage" [⟨"Open", "Open", [], .marker⟩] text).toList =
        constructor.opened.passed.reverse ++ updated ++ '\x7d' :: constructor.behind ∧
      withoutBlanks updated =
        "speed=4;open=0;lock(2);RegisterMessage(\"Open\",&Door::Open);".toList := by
  intro text
  let pieces := ["\n  speed = 4;", " open = 0;", "\n  RegisterMessage(\"Shut\", &Door::Shut);",
    " RegisterMessage(\"Knock\", &Door::Knock);", "\n  lock(\n    2);", "\n"].map String.toList
  have parts : (find? "Door".toList text.toList).any (fun constructor =>
      decide (pieces.flatten = constructor.body)) = true := by
    decide +kernel
  have laidOut : LaidOut "RegisterMessage" pieces := by decide +kernel
  obtain ⟨constructor, found, isBody⟩ := (Option.any_eq_true _ _).mp parts
  obtain ⟨updated, shape, _, whole⟩ :=
    inject_statements "RegisterMessage" [⟨"Open", "Open", [], .marker⟩] found
  refine ⟨constructor, updated, found, shape, ?_⟩
  rw [whole pieces (of_decide_eq_true isBody) laidOut]
  decide +kernel

/-- Whether a text is one statement, with a semicolon at its end and no brace or comment in it. -/
structure IsStatement (piece : List Char) : Prop where
  ended : piece.getLast? = some ';'
  braceless : ∀ character ∈ piece, isBrace character = false
  noLineComment : contains ['/', '/'] piece = false
  noBlockComment : contains ['/', '*'] piece = false

/-- A statement on the line of a call goes with the call, and a wrapped call leaves its other lines
behind. -/
theorem inject_drops_statement :
    ¬ ∀ (className statement : String) (messages : List Message) (text : String)
      (constructor : Constructor) (pieces : List (List Char)) (blanks updated : List Char),
      isIdentifier className.toList = true → isIdentifier statement.toList = true →
      find? className.toList text.toList = some constructor →
      (∀ piece ∈ pieces, IsStatement piece) → (∀ character ∈ blanks, isBlank character = true) →
      constructor.body = pieces.flatten ++ blanks →
      (inject className statement messages text).toList =
        constructor.opened.passed.reverse ++ updated ++ '\x7d' :: constructor.behind →
      withoutBlanks updated = withoutBlanks (pieces.filter (!isCall statement ·)).flatten ++
        solidRegistrations className statement messages := by
  intro claimed
  let text := "Door() \x7b\n  speed = 4; RegisterMessage(\"Open\",\n    &Door::Open);\n\x7d\n"
  let messages : List Message := [⟨"Open", "Open", [], .marker⟩]
  let pieces :=
    ["\n  speed = 4;", " RegisterMessage(\"Open\",\n    &Door::Open);"].map String.toList
  let updated := "\n    &Door::Open);\n    RegisterMessage(\"Open\", &Door::Open);\n".toList
  have happens : (find? "Door".toList text.toList).any (fun constructor =>
      decide (constructor.body = pieces.flatten ++ ['\n']) &&
        decide ((inject "Door" "RegisterMessage" messages text).toList =
          constructor.opened.passed.reverse ++ updated ++ '\x7d' :: constructor.behind)) =
        true := by
    decide +kernel
  obtain ⟨constructor, found, both⟩ := (Option.any_eq_true _ _).mp happens
  rw [Bool.and_eq_true, decide_eq_true_eq, decide_eq_true_eq] at both
  have areStatements : ∀ piece ∈ pieces, IsStatement piece := by
    have checks : (pieces.all fun piece => decide (piece.getLast? = some ';') &&
        piece.all (!isBrace ·) && !contains ['/', '/'] piece && !contains ['/', '*'] piece) =
          true := by
      decide +kernel
    intro piece member
    have check := List.all_eq_true.mp checks piece member
    simp only [Bool.and_eq_true, decide_eq_true_eq, List.all_eq_true, Bool.not_eq_true'] at check
    obtain ⟨⟨⟨ended, braceless⟩, noLineComment⟩, noBlockComment⟩ := check
    exact ⟨ended, braceless, noLineComment, noBlockComment⟩
  have same := claimed "Door" "RegisterMessage" messages text constructor pieces ['\n'] updated
    (by decide) (by decide) found areStatements (List.forall_mem_singleton.mpr (by decide)) both.1
    both.2
  revert same
  decide +kernel

end ScriptRegistrar.Injection
