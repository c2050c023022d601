import ScriptRegistrar.Text.Search

/-!
# Searching by words

Every recogniser of the library begins with a word it knows: a marker, a keyword or the name of a
class.  The words of a text are its maximal runs of word characters.  A stretch of text that holds
none of the words a recogniser begins with can be passed over without changing what the search
finds, whatever else stands in the stretch.
-/

namespace ScriptRegistrar.Text

/-- The words of a text: its maximal runs of word characters, in order. -/
def wordsIn (text : List Char) : List (List Char) :=
  (fields (!isWord ·) text).filter (!·.isEmpty)

/-- Whether a text is one word. -/
def IsWordText (text : List Char) : Prop :=
  text ≠ [] ∧ ∀ character ∈ text, isWord character = true

/-- Whether a place does not stand behind a word character. -/
def NotInWord (passed : List Char) : Prop :=
  passed.head?.any isWord = false

theorem notInWord_nil : NotInWord [] := rfl

theorem notInWord_cons {character : Char} {passed : List Char}
    (separates : isWord character = false) : NotInWord (character :: passed) := by
  simpa [NotInWord] using separates

theorem NotInWord.of_append {nearer farther : List Char} (outside : NotInWord (nearer ++ farther)) :
    NotInWord nearer := by
  cases nearer with
  | nil => exact notInWord_nil
  | cons character others => exact outside

theorem NotInWord.append {nearer farther : List Char} (ended : NotInWord nearer)
    (outside : NotInWord farther) : NotInWord (nearer ++ farther) := by
  cases nearer with
  | nil => exact outside
  | cons character others => exact ended

theorem fields_append_separator (separates : Char → Bool) (left right : List Char)
    {separator : Char} (isSeparator : separates separator = true) :
    fields separates (left ++ separator :: right) =
      fields separates left ++ fields separates right := by
  induction left with
  | nil => simp [fields, isSeparator]
  | cons next rest induction =>
      simp only [List.cons_append, fields, induction]
      by_cases separated : separates next = true
      · simp [separated]
      · cases pieces : fields separates rest with
        | nil => exact (fields_ne_nil separates rest pieces).elim
        | cons piece others => simp [separated]

theorem fields_eq_singleton (separates : Char → Bool) (text : List Char)
    (none : ∀ character ∈ text, separates character = false) :
    fields separates text = [text] := by
  induction text with
  | nil => rfl
  | cons next rest induction =>
      have first : separates next = false := none next List.mem_cons_self
      have others := induction fun character member =>
        none character (List.mem_cons_of_mem next member)
      simp [fields, first, others]

/-- A field holds characters of the text that do not separate. -/
theorem mem_of_mem_fields {separates : Char → Bool} {text field : List Char}
    (member : field ∈ fields separates text) :
    ∀ character ∈ field, character ∈ text ∧ separates character = false := by
  induction text generalizing field with
  | nil =>
      rw [fields, List.mem_singleton] at member
      simp [member]
  | cons next rest induction =>
      intro character inField
      have later : ∀ {other : List Char}, other ∈ fields separates rest → character ∈ other →
          character ∈ next :: rest ∧ separates character = false := by
        intro other isField inOther
        obtain ⟨inRest, holds⟩ := induction isField character inOther
        exact ⟨List.mem_cons_of_mem _ inRest, holds⟩
      rw [fields] at member
      split at member
      · rcases List.mem_cons.mp member with rfl | isField
        · cases inField
        · exact later isField inField
      · rename_i stays
        have holds : separates next = false := by simpa using stays
        split at member
        · rename_i nothing
          exact (fields_ne_nil separates rest nothing).elim
        · rename_i first others shape
          rw [shape] at later
          rcases List.mem_cons.mp member with rfl | isField
          · rcases List.mem_cons.mp inField with rfl | inFirst
            · exact ⟨List.mem_cons_self, holds⟩
            · exact later List.mem_cons_self inFirst
          · exact later (List.mem_cons_of_mem _ isField) inField

@[simp] theorem wordsIn_nil : wordsIn [] = [] := by
  simp [wordsIn, fields]

@[simp] theorem wordsIn_cons_of_not_isWord {character : Char} (rest : List Char)
    (separates : isWord character = false) :
    wordsIn (character :: rest) = wordsIn rest := by
  simp [wordsIn, fields, separates]

theorem wordsIn_append_cons (left right : List Char) {separator : Char}
    (separates : isWord separator = false) :
    wordsIn (left ++ separator :: right) = wordsIn left ++ wordsIn right := by
  have isSeparator : (!isWord separator) = true := by simp [separates]
  simp [wordsIn, fields_append_separator (!isWord ·) left right isSeparator]

theorem wordsIn_append (left : List Char) {right : List Char}
    (separated : right.head?.any isWord = false) :
    wordsIn (left ++ right) = wordsIn left ++ wordsIn right := by
  cases right with
  | nil => simp
  | cons separator rest =>
      have separates : isWord separator = false := by simpa using separated
      simp [wordsIn_append_cons left rest separates, separates]

theorem wordsIn_append_of_ended {left : List Char} (right : List Char)
    (ended : NotInWord left.reverse) : wordsIn (left ++ right) = wordsIn left ++ wordsIn right := by
  rcases List.eq_nil_or_concat left with rfl | ⟨before, separator, rfl⟩
  · simp
  · have separates : isWord separator = false := by simpa [NotInWord] using ended
    have alone := wordsIn_append_cons before [] separates
    simp_all [wordsIn_append_cons before right separates]

@[simp] theorem wordsIn_of_isWordText {word : List Char} (isWordText : IsWordText word) :
    wordsIn word = [word] := by
  have single := fields_eq_singleton (!isWord ·) word fun character member => by
    simp [isWordText.2 character member]
  simp [wordsIn, single, isWordText.1]

theorem wordsIn_word_append {word : List Char} (isWordText : IsWordText word)
    {rest : List Char} (separated : rest.head?.any isWord = false) :
    wordsIn (word ++ rest) = word :: wordsIn rest := by
  simp [wordsIn_append word separated, isWordText]

theorem wordsIn_cons_of_isWord {character : Char} (rest : List Char)
    (isWordCharacter : isWord character = true) :
    wordsIn (character :: rest) =
      (character :: rest.takeWhile isWord) :: wordsIn (rest.dropWhile isWord) := by
  have run : IsWordText (character :: rest.takeWhile isWord) := by
    refine ⟨by simp, ?_⟩
    have letters := List.all_eq_true.mp (List.all_takeWhile (p := isWord) (l := rest))
    simpa [isWordCharacter] using letters
  have parts : character :: rest =
      (character :: rest.takeWhile isWord) ++ rest.dropWhile isWord := by
    rw [List.cons_append, List.takeWhile_append_dropWhile]
  rw [parts, wordsIn_word_append run (head?_any_dropWhile isWord rest)]

theorem takeWhile_isWord_append (text : List Char) {rest : List Char}
    (separated : rest.head?.any isWord = false) :
    (text ++ rest).takeWhile isWord = text.takeWhile isWord := by
  induction text with
  | nil =>
      cases rest with
      | nil => rfl
      | cons character behind =>
          have separates : isWord character = false := by simpa using separated
          simp [separates]
  | cons next later induction =>
      by_cases isWordCharacter : isWord next = true
      · simp [isWordCharacter, induction]
      · simp [isWordCharacter]

namespace Recogniser

/-- Whether a recogniser reads nothing but what begins, at a word's start, with a whole word
that `known` holds of. -/
def BeginsWith (known : List Char → Prop) (read : Cursor → Option α) : Prop :=
  ∀ cursor result, read cursor = some result →
    NotInWord cursor.passed ∧ known (cursor.ahead.takeWhile isWord)

private theorem mem_wordsIn_of_begins {known : List Char → Prop} {read : Cursor → Option α}
    (begins : BeginsWith known read) (unknown : ¬ known []) {next : Char}
    {later passed rest : List Char} {found : α} (separated : rest.head?.any isWord = false)
    (reads : read ⟨passed, next :: (later ++ rest)⟩ = some found) :
    NotInWord passed ∧ ∃ word ∈ wordsIn (next :: later), known word := by
  obtain ⟨outside, isKnown⟩ := begins _ _ reads
  refine ⟨outside, _, ?_, isKnown⟩
  have stays := takeWhile_isWord_append (next :: later) separated
  rw [List.cons_append] at stays
  simp only [stays] at isKnown ⊢
  by_cases isWordCharacter : isWord next = true
  · rw [wordsIn_cons_of_isWord later isWordCharacter]
    simp [isWordCharacter]
  · exact (unknown (by simpa [isWordCharacter] using isKnown)).elim

/-- Inside a word a recogniser fails because no word starts there, so only the words behind the
current one matter. -/
private theorem firstFrom?_append_of_words {known : List Char → Prop} {read : Cursor → Option α}
    (begins : BeginsWith known read) (unknown : ¬ known []) {rest : List Char}
    (separated : rest.head?.any isWord = false) (stretch : List Char) :
    ∀ passed : List Char,
      (NotInWord passed → ∀ word ∈ wordsIn stretch, ¬ known word) →
      (¬ NotInWord passed → ∀ word ∈ wordsIn (stretch.dropWhile isWord), ¬ known word) →
      firstFrom? read passed (stretch ++ rest) =
        firstFrom? read (stretch.reverse ++ passed) rest := by
  induction stretch with
  | nil => intros; rfl
  | cons next later induction =>
      intro passed atStart inWord
      have fails : read ⟨passed, next :: (later ++ rest)⟩ = none := by
        cases result : read ⟨passed, next :: (later ++ rest)⟩ with
        | none => rfl
        | some found =>
            obtain ⟨outside, word, member, isKnown⟩ :=
              mem_wordsIn_of_begins begins unknown separated result
            exact (atStart outside word member isKnown).elim
      rw [List.cons_append, firstFrom?, fails]
      have further := induction (next :: passed) ?_ ?_
      · simpa using further
      · intro separates
        have separates : isWord next = false := by simpa [NotInWord] using separates
        by_cases outside : NotInWord passed
        · simpa [wordsIn_cons_of_not_isWord later separates] using atStart outside
        · have clear := inWord outside
          rwa [List.dropWhile_cons_of_neg (by simp [separates]),
            wordsIn_cons_of_not_isWord later separates] at clear
      · intro inside
        have isWordCharacter : isWord next = true := by simpa [NotInWord] using inside
        by_cases outside : NotInWord passed
        · have clear := atStart outside
          rw [wordsIn_cons_of_isWord later isWordCharacter] at clear
          exact fun word member => clear word (List.mem_cons_of_mem _ member)
        · simpa [isWordCharacter] using inWord outside

theorem firstFrom?_append_of_clear {known : List Char → Prop} {read : Cursor → Option α}
    (begins : BeginsWith known read) (unknown : ¬ known []) {stretch passed rest : List Char}
    (separated : rest.head?.any isWord = false) (outside : NotInWord passed)
    (clear : ∀ word ∈ wordsIn stretch, ¬ known word) :
    firstFrom? read passed (stretch ++ rest) = firstFrom? read (stretch.reverse ++ passed) rest :=
  firstFrom?_append_of_words begins unknown separated stretch passed (fun _ => clear)
    (fun inWord => (inWord outside).elim)

/-- The same where the stretch ends with a separator, whatever follows. -/
theorem firstFrom?_append_of_ended {known : List Char → Prop} {read : Cursor → Option α}
    (begins : BeginsWith known read) (unknown : ¬ known []) {stretch passed : List Char}
    (rest : List Char) (ended : NotInWord stretch.reverse) (outside : NotInWord passed)
    (clear : ∀ word ∈ wordsIn stretch, ¬ known word) :
    firstFrom? read passed (stretch ++ rest) = firstFrom? read (stretch.reverse ++ passed) rest := by
  rcases List.eq_nil_or_concat stretch with rfl | ⟨before, separator, rfl⟩
  · rfl
  · have separates : isWord separator = false := by simpa [NotInWord] using ended
    have clearBefore : ∀ word ∈ wordsIn before, ¬ known word := by
      simpa [wordsIn_append_cons before [] separates] using clear
    have skipped := @firstFrom?_append_of_clear _ _ _ begins unknown before passed
      (separator :: rest) (by simpa using separates) outside clearBefore
    have fails : read ⟨before.reverse ++ passed, separator :: rest⟩ = none := by
      cases result : read ⟨before.reverse ++ passed, separator :: rest⟩ with
      | none => rfl
      | some found =>
          have isKnown := (begins _ _ result).2
          exact (unknown (by simpa [separates] using isKnown)).elim
    rw [List.concat_eq_append, List.append_assoc, List.singleton_append, skipped, firstFrom?, fails]
    simp

theorem firstFrom?_eq_none_of_clear {known : List Char → Prop} {read : Cursor → Option α}
    (begins : BeginsWith known read) (unknown : ¬ known []) {text passed : List Char}
    (outside : NotInWord passed) (clear : ∀ word ∈ wordsIn text, ¬ known word) :
    firstFrom? read passed text = none := by
  have skipped := @firstFrom?_append_of_clear _ _ _ begins unknown text passed [] rfl outside clear
  rw [List.append_nil] at skipped
  rw [skipped, firstFrom?]
  cases result : read ⟨text.reverse ++ passed, []⟩ with
  | none => rfl
  | some found => exact (unknown (begins _ _ result).2).elim

/-- Whether a search passes over a stretch in front of some text. -/
def Skips (read : Cursor → Option α) (passed stretch rest : List Char) : Prop :=
  firstFrom? read passed (stretch ++ rest) = firstFrom? read (stretch.reverse ++ passed) rest

theorem Skips.append {read : Cursor → Option α} {passed left right rest : List Char}
    (first : Skips read passed left (right ++ rest))
    (second : Skips read (left.reverse ++ passed) right rest) :
    Skips read passed (left ++ right) rest := by
  rw [Skips, List.append_assoc, first, second, List.reverse_append, List.append_assoc]

/-- A search passes over a stretch in which its recogniser reads nowhere. -/
theorem firstFrom?_append_of_none {read : Cursor → Option α} {stretch passed rest : List Char}
    (none : ∀ left next right, stretch = left ++ next :: right →
      read ⟨left.reverse ++ passed, next :: right ++ rest⟩ = none) :
    firstFrom? read passed (stretch ++ rest) = firstFrom? read (stretch.reverse ++ passed) rest := by
  induction stretch generalizing passed with
  | nil => rfl
  | cons next later induction =>
      have here := none [] next later rfl
      rw [List.reverse_nil, List.nil_append, List.cons_append] at here
      rw [List.cons_append, firstFrom?, here, List.reverse_cons, List.append_assoc]
      apply induction
      intro left character right shape
      have further := none (next :: left) character right (by rw [shape, List.cons_append])
      simpa using further

/-- A search passes over signs and blanks if its recogniser begins with a word. -/
theorem firstFrom?_append_of_signs {known : List Char → Prop} {read : Cursor → Option α}
    (begins : BeginsWith known read) (unknown : ¬ known []) {stretch : List Char}
    (signs : ∀ character ∈ stretch, isWord character = false) (passed rest : List Char) :
    firstFrom? read passed (stretch ++ rest) = firstFrom? read (stretch.reverse ++ passed) rest := by
  apply firstFrom?_append_of_none
  intro left next right shape
  have sign : isWord next = false := signs next (by simp [shape])
  cases result : read ⟨left.reverse ++ passed, next :: right ++ rest⟩ with
  | none => rfl
  | some found =>
      have isKnown := (begins _ _ result).2
      rw [List.cons_append, List.takeWhile_cons_of_neg (by simp [sign])] at isKnown
      exact (unknown isKnown).elim

/-- Something is found if the recogniser reads at some place ahead. -/
theorem firstFrom?_isSome {read : Cursor → Option α} {stretch passed rest : List Char}
    (reads : (read ⟨stretch.reverse ++ passed, rest⟩).isSome = true) :
    (firstFrom? read passed (stretch ++ rest)).isSome = true := by
  induction stretch generalizing passed with
  | nil =>
      cases result : read ⟨passed, rest⟩ with
      | none => simp [result] at reads
      | some found =>
          cases rest <;> simp [firstFrom?, result]
  | cons next later induction =>
      rw [List.cons_append, firstFrom?]
      cases result : read ⟨passed, next :: (later ++ rest)⟩ with
      | none => exact induction (by simpa using reads)
      | some found => rfl

theorem firstFrom?_eq_some_of_read {read : Cursor → Option α} {passed rest : List Char}
    {found : α} (reads : read ⟨passed, rest⟩ = some found) :
    firstFrom? read passed rest = some found := by
  cases rest <;> simp [firstFrom?, reads]

/-- Whether a recogniser passes at least one character when it reads. -/
def Advances (read : Recogniser α) : Prop :=
  ∀ cursor found next, read cursor = some (found, next) →
    next.ahead.length < cursor.ahead.length

theorem firstFrom?_advances {read : Recogniser α} (advances : Advances read)
    {passed ahead : List Char} {found : α} {next : Cursor}
    (first : firstFrom? read passed ahead = some (found, next)) :
    next.ahead.length < ahead.length := by
  induction ahead generalizing passed with
  | nil => exact advances _ _ _ first
  | cons character rest induction =>
      rw [firstFrom?] at first
      cases result : read ⟨passed, character :: rest⟩ with
      | none =>
          rw [result] at first
          exact Nat.lt_succ_of_lt (induction first)
      | some pair =>
          rw [result] at first
          exact advances _ _ _ (result.trans first)

theorem occurrences_eq_cons {read : Recogniser α} (advances : Advances read)
    {cursor next : Cursor} {found : α} (first : first? read cursor = some (found, next)) :
    occurrences read cursor = found :: occurrences read next := by
  rw [occurrences, first]
  simp [firstFrom?_advances advances first]

theorem occurrences_eq_nil {read : Recogniser α} {cursor : Cursor}
    (first : first? read cursor = none) : occurrences read cursor = [] := by
  rw [occurrences, first]

/-- Induction along what a search finds. -/
@[elab_as_elim]
theorem search_induction {read : Recogniser α} (advances : Advances read)
    {motive : Cursor → Prop}
    (nothing : ∀ cursor, first? read cursor = none → motive cursor)
    (next : ∀ cursor found behind, first? read cursor = some (found, behind) → motive behind →
      motive cursor)
    (cursor : Cursor) : motive cursor := by
  generalize length : cursor.ahead.length = bound
  induction bound using Nat.strongRecOn generalizing cursor with
  | ind bound induction =>
      cases search : first? read cursor with
      | none => exact nothing cursor search
      | some pair =>
          obtain ⟨found, behind⟩ := pair
          have shorter := firstFrom?_advances advances search
          exact next cursor found behind search
            (induction behind.ahead.length (by omega) behind rfl)

theorem occurrences_eq_of_first?_eq {read : Recogniser α} (advances : Advances read)
    {cursor other : Cursor} (first : first? read cursor = first? read other) :
    occurrences read cursor = occurrences read other := by
  cases result : first? read other with
  | none => rw [occurrences_eq_nil result, occurrences_eq_nil (first.trans result)]
  | some pair =>
      rw [occurrences_eq_cons advances result, occurrences_eq_cons advances (first.trans result)]

theorem occurrences_append_of_ended {known : List Char → Prop} {read : Recogniser α}
    (advances : Advances read) (begins : BeginsWith known read) (unknown : ¬ known [])
    {stretch passed : List Char} (rest : List Char) (ended : NotInWord stretch.reverse)
    (outside : NotInWord passed) (clear : ∀ word ∈ wordsIn stretch, ¬ known word) :
    occurrences read ⟨passed, stretch ++ rest⟩ =
      occurrences read ⟨stretch.reverse ++ passed, rest⟩ :=
  occurrences_eq_of_first?_eq advances
    (firstFrom?_append_of_ended begins unknown rest ended outside clear)

theorem occurrences_of_read {read : Recogniser α} (advances : Advances read)
    {passed ahead : List Char} {found : α} {next : Cursor}
    (reads : read ⟨passed, ahead⟩ = some (found, next)) :
    occurrences read ⟨passed, ahead⟩ = found :: occurrences read next :=
  occurrences_eq_cons advances (firstFrom?_eq_some_of_read reads)

end Recogniser

end ScriptRegistrar.Text
