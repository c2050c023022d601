import ScriptRegistrar.Proofs.Layout.Headers
import ScriptRegistrar.Proofs.Text.OffsetSearch

/-!
# The shape of a head

A head is a keyword, words that end in the name or in `final`, a colon, `public` and the base
class, with blanks between them, and it starts and ends where words do.  `Occurs` says where such
a text stands, without any search.  Reading a head is exact for it, so a search from an offset on
finds the first place at or behind the offset where a head stands.
-/

namespace ScriptRegistrar

open Text Text.Cursor Text.Recogniser

namespace Text

namespace Cursor

theorem Across.blanks?_eq {cursor next : Cursor} {run : List Char} (across : Across cursor run next)
    (isRun : IsBlankRun run) (stops : next.ahead.head?.any isBlank = false) :
    cursor.blanks? = some next := by
  obtain ⟨first, others, rfl, blank, _⟩ := isRun.exists_cons
  have comesNext : cursor.nextIs isBlank = true := by
    rw [nextIs, across.1]
    simpa using blank
  rw [blanks?, if_pos comesNext, passBlanks, (across.passWhile_eq isRun.blank stops).2]

end Cursor

/-- The blanks that had to come are a run of them, and no blank follows. -/
theorem Cursor.isBlankRun_of_blanks? {cursor next : Cursor} (read : cursor.blanks? = some next) :
    ∃ run, IsBlankRun run ∧ Across cursor run next ∧ next.ahead.head?.any isBlank = false := by
  obtain ⟨across, comesNext⟩ := across_of_blanks? read
  refine ⟨_, ⟨?_, List.all_eq_true.mp List.all_takeWhile⟩, across, ?_⟩
  · cases shape : cursor.ahead with
    | nil => simp [shape] at comesNext
    | cons first rest =>
        rw [shape, List.head?_cons, Option.any_some] at comesNext
        simp [comesNext]
  · unfold blanks? at read
    split at read
    · cases read
      exact head?_any_dropWhile isBlank cursor.ahead
    · cases read

/-- Whether a text starts with a word. -/
def StartsWithWord (text : List Char) : Prop :=
  text.head?.any isWord = true

theorem StartsWithWord.append {text : List Char} (starts : StartsWithWord text)
    (rest : List Char) : StartsWithWord (text ++ rest) := by
  cases text with
  | nil => cases starts
  | cons first others => exact starts

theorem IsWordText.startsWithWord {word : List Char} (isWordText : IsWordText word) :
    StartsWithWord word := by
  obtain ⟨first, others, rfl⟩ := List.exists_cons_of_ne_nil isWordText.1
  exact isWordText.2 first List.mem_cons_self

theorem StartsWithWord.head?_isBlank {text : List Char} (starts : StartsWithWord text) :
    text.head?.any isBlank = false := by
  cases text with
  | nil => rfl
  | cons first others =>
      have letter : isWord first = true := starts
      have notBlank := fun blank => (isWord_of_isBlank blank).symm.trans letter
      simpa using notBlank

theorem words_ne_nil {text : List Char} (starts : StartsWithWord text) : words text ≠ [] := by
  obtain ⟨next, rest, rfl⟩ : ∃ next rest, text = next :: rest := by
    cases text with
    | nil => cases starts
    | cons next rest => exact ⟨next, rest, rfl⟩
  obtain ⟨field, others, shape⟩ := List.exists_cons_of_ne_nil (fields_ne_nil isBlank rest)
  rw [words, fields, if_neg (by simpa using starts.head?_isBlank), shape]
  simp

theorem exists_word_append {text : List Char} (starts : StartsWithWord text) :
    ∃ word behind, text = word ++ behind ∧ IsWordText word ∧
      behind.head?.any isWord = false := by
  refine ⟨text.takeWhile isWord, text.dropWhile isWord, List.takeWhile_append_dropWhile.symm,
    ⟨?_, List.all_eq_true.mp List.all_takeWhile⟩, head?_any_dropWhile isWord text⟩
  cases text with
  | nil => cases starts
  | cons first rest =>
      have letter : isWord first = true := starts
      simp [letter]

theorem exists_blanks_append (text : List Char) :
    ∃ blanks behind, text = blanks ++ behind ∧
      (∀ character ∈ blanks, isBlank character = true) ∧ behind.head?.any isBlank = false :=
  ⟨text.takeWhile isBlank, text.dropWhile isBlank, List.takeWhile_append_dropWhile.symm,
    List.all_eq_true.mp List.all_takeWhile, head?_any_dropWhile isBlank text⟩

end Text

namespace ClassHead

/-- The words of a head between its keyword and its colon: any number of words in front of the
name, the name, and `final` or not. -/
inductive DeclaredWords : List Char → Prop where
  | inFront {word apart rest : List Char} (isWordText : IsWordText word) (run : IsBlankRun apart)
      (others : DeclaredWords rest) : DeclaredWords (word ++ (apart ++ rest))
  | name {word behind : List Char} (isWordText : IsWordText word)
      (blank : ∀ character ∈ behind, isBlank character = true) : DeclaredWords (word ++ behind)
  | final {word apart behind : List Char} (isWordText : IsWordText word)
      (blankApart : ∀ character ∈ apart, isBlank character = true)
      (blankBehind : ∀ character ∈ behind, isBlank character = true) :
      DeclaredWords (word ++ (apart ++ ("final".toList ++ behind)))

/-- A text with the shape of a head. -/
inductive Spelt (base : List Char) : List Char → Prop where
  | head {keyword apart declared blanks gap : List Char} (known : IsClassKeyword keyword)
      (behindKeyword : IsBlankRun apart) (words : DeclaredWords declared)
      (behindColon : ∀ character ∈ blanks, isBlank character = true)
      (behindAccess : IsBlankRun gap) :
      Spelt base (keyword ++ (apart ++ (declared ++ (":".toList ++ (blanks ++
        ("public".toList ++ (gap ++ base)))))))

/-- Whether a head of a class that derives from `base` stands between two places. -/
structure Occurs (base : List Char) (start stop : Cursor) : Prop where
  starts : start.isBoundary = true
  ends : stop.isBoundary = true
  spelt : ∃ between, Spelt base between ∧ Across start between stop

theorem isWordText_of_isClassKeyword {keyword : List Char} (known : IsClassKeyword keyword) :
    IsWordText keyword := by
  rcases known with rfl | rfl
  · exact ⟨by decide, List.all_eq_true.mp (by decide)⟩
  · exact ⟨by decide, List.all_eq_true.mp (by decide)⟩

theorem DeclaredWords.startsWithWord {text : List Char} (declared : DeclaredWords text) :
    StartsWithWord text := by
  cases declared with
  | inFront isWordText => exact isWordText.startsWithWord.append _
  | name isWordText => exact isWordText.startsWithWord.append _
  | final isWordText => exact isWordText.startsWithWord.append _

theorem DeclaredWords.letters {text : List Char} (declared : DeclaredWords text) :
    ∀ character ∈ text, (isWord character || isBlank character) = true := by
  have ofWord : ∀ {word : List Char}, IsWordText word →
      ∀ character ∈ word, (isWord character || isBlank character) = true :=
    fun isWordText character letter => by simp [isWordText.2 _ letter]
  have ofBlanks : ∀ {blanks : List Char}, (∀ character ∈ blanks, isBlank character = true) →
      ∀ character ∈ blanks, (isWord character || isBlank character) = true :=
    fun blank character inside => by simp [blank _ inside]
  have final : IsWordText "final".toList := ⟨by decide, List.all_eq_true.mp (by decide)⟩
  induction declared with
  | inFront isWordText run _ induction =>
      exact List.forall_mem_append.mpr ⟨ofWord isWordText,
        List.forall_mem_append.mpr ⟨ofBlanks run.blank, induction⟩⟩
  | name isWordText blank =>
      exact List.forall_mem_append.mpr ⟨ofWord isWordText, ofBlanks blank⟩
  | final isWordText blankApart blankBehind =>
      exact List.forall_mem_append.mpr ⟨ofWord isWordText,
        List.forall_mem_append.mpr ⟨ofBlanks blankApart,
          List.forall_mem_append.mpr ⟨ofWord final, ofBlanks blankBehind⟩⟩⟩

/-- Words and blanks that start with a word are the words of a head. -/
theorem declaredWords_of_letters {text : List Char} (starts : StartsWithWord text)
    (letters : ∀ character ∈ text, (isWord character || isBlank character) = true) :
    DeclaredWords text := by
  generalize length : text.length = bound
  induction bound using Nat.strongRecOn generalizing text with
  | ind bound induction =>
      obtain ⟨word, behind, rfl, isWordText, behindWord⟩ := exists_word_append starts
      obtain ⟨blanks, rest, rfl, blank, behindBlanks⟩ := exists_blanks_append behind
      cases rest with
      | nil => simpa using DeclaredWords.name isWordText blank
      | cons next others =>
          have notBlank : isBlank next = false := by simpa using behindBlanks
          have ofNext := letters next (by simp)
          rw [notBlank, Bool.or_false] at ofNext
          have run : IsBlankRun blanks := by
            refine ⟨?_, blank⟩
            rintro rfl
            simp [ofNext] at behindWord
          have positive := List.length_pos_iff.mpr isWordText.1
          refine .inFront isWordText run (induction _ ?_ ofNext ?_ rfl)
          · simp only [List.length_append] at length ⊢
            omega
          · intro character later
            exact letters character (by simp [List.mem_cons.mp later])

theorem exists_declaredName? {names : List (List Char)} (nonempty : names ≠ []) :
    ∃ name, declaredName? names = some name := by
  unfold declaredName?
  split
  · rename_i shape
    exact (nonempty (List.reverse_eq_nil_iff.mp shape)).elim
  · exact ⟨_, rfl⟩
  · exact ⟨_, rfl⟩

theorem keyword?_of_across {cursor next : Cursor} {keyword : List Char}
    (known : IsClassKeyword keyword) (across : Across cursor keyword next) :
    (cursor.sign? "class" <|> cursor.sign? "struct") = some next := by
  rcases known with rfl | rfl
  · rw [sign?_eq_some_iff.mpr across]
    rfl
  · have isNoClass : cursor.sign? "class" = none := by
      rw [Cursor.sign?, Cursor.literal?, across.1]
      rfl
    rw [isNoClass, sign?_eq_some_iff.mpr across]
    rfl

/-- The run behind a keyword declares a name only if it starts with a word. -/
theorem declaredWords_of_declaredName? {cursor : Cursor} {name : List Char}
    (notBlank : cursor.ahead.head?.any isBlank = false)
    (declared : declaredName? (words (cursor.ahead.takeWhile
      fun next => isWord next || isBlank next)) = some name) :
    DeclaredWords (cursor.ahead.takeWhile fun next => isWord next || isBlank next) := by
  refine declaredWords_of_letters ?_ (List.all_eq_true.mp List.all_takeWhile)
  cases shape : cursor.ahead with
  | nil => simp [shape, words, fields, declaredName?] at declared
  | cons next rest =>
      have solid : isBlank next = false := by simpa [shape] using notBlank
      cases letter : isWord next with
      | true => simp [StartsWithWord, letter]
      | false => simp [shape, solid, letter, words, fields, declaredName?] at declared

theorem isBoundary_of_base? {base : List Char} {cursor next : Cursor}
    (read : base? base cursor = some next) : next.isBoundary = true := by
  simp only [base?, Option.bind_eq_bind, Option.bind_eq_some_iff] at read
  obtain ⟨_, _, ends⟩ := read
  split at ends
  · cases ends
    assumption
  · cases ends

variable {base : List Char} (isWordText : IsWordText base) {start stop : Cursor}

include isWordText

/-- A head that stands at a place is read there. -/
theorem read?_of_occurs (occurs : Occurs base start stop) :
    ∃ name, read? base start = some (⟨name, start.offset, stop.offset⟩, stop) := by
  obtain ⟨starts, ends, between, spelt, across⟩ := occurs
  cases spelt with
  | @head keyword apart declared blanks gap known behindKeyword words behindColon behindAccess =>
      obtain ⟨afterKeyword, toKeyword, across⟩ := across.exists_between
      obtain ⟨declaration, toDeclaration, across⟩ := across.exists_between
      obtain ⟨colon, toColon, across⟩ := across.exists_between
      obtain ⟨afterColon, toAfterColon, across⟩ := across.exists_between
      obtain ⟨access, toAccess, across⟩ := across.exists_between
      obtain ⟨afterAccess, toAfterAccess, across⟩ := across.exists_between
      obtain ⟨baseClass, toBase, across⟩ := across.exists_between
      have declares : StartsWithWord declaration.ahead := by
        rw [toColon.1]
        exact words.startsWithWord.append _
      have namesBase : StartsWithWord baseClass.ahead := by
        rw [across.1]
        exact isWordText.startsWithWord.append _
      have blanks := toDeclaration.blanks?_eq behindKeyword declares.head?_isBlank
      obtain ⟨run, passesRun⟩ := toColon.passWhile_eq words.letters (by rw [toAfterColon.1]; rfl)
      have passesBlanks := (toAccess.passWhile_eq behindColon (by rw [toAfterAccess.1]; rfl)).2
      have gapBlanks := toBase.blanks?_eq behindAccess namesBase.head?_isBlank
      have readsBase : base? base baseClass = some stop := by
        simp [base?, literal?_eq_some_iff.mpr across, ends]
      obtain ⟨name, named⟩ := exists_declaredName? (words_ne_nil words.startsWithWord)
      refine ⟨String.ofList name, ?_⟩
      rw [read?]
      simp only [starts, guard, if_true, Option.bind_eq_bind, Option.pure_def, Option.bind_some,
        keyword?_of_across known toKeyword, blanks, run, named, passesRun,
        sign?_eq_some_iff.mpr toAfterColon, Cursor.passBlanks, passesBlanks,
        sign?_eq_some_iff.mpr toAfterAccess, findSome?_behindBlanks isWordText, gapBlanks,
        readsBase]

/-- What is read as a head is one, between the offsets it states. -/
theorem occurs_of_read? {head : ClassHead} (read : read? base start = some (head, stop)) :
    Occurs base start stop ∧ head.start = start.offset ∧ head.stop = stop.offset := by
  simp only [read?, Option.bind_eq_bind, Option.bind_eq_some_iff, Option.guard_eq_some',
    findSome?_behindBlanks isWordText] at read
  obtain ⟨_, starts, behindKeyword, keyword, declaration, blanks, name, declared, behindColon,
    colon, behindAccess, access, _, ⟨behindGap, gap, baseClass⟩, equality⟩ := read
  cases equality
  obtain ⟨word, known, literal⟩ := across_of_keyword keyword
  obtain ⟨apart, apartIsRun, acrossApart, notBlank⟩ := isBlankRun_of_blanks? blanks
  obtain ⟨between, gapIsRun, acrossGap, _⟩ := isBlankRun_of_blanks? gap
  have words := declaredWords_of_declaredName? notBlank declared
  have toColon := across_passWhile declaration fun next => isWord next || isBlank next
  have blankBehindColon : ∀ character ∈ behindColon.ahead.takeWhile isBlank,
      isBlank character = true := List.all_eq_true.mp List.all_takeWhile
  refine ⟨⟨starts, isBoundary_of_base? baseClass, _,
    .head known apartIsRun words blankBehindColon gapIsRun, ?_⟩, rfl, rfl⟩
  exact (literal?_eq_some_iff.mp literal).trans (acrossApart.trans (toColon.trans
    ((sign?_eq_some_iff.mp colon).trans ((across_passBlanks behindColon).trans
      ((sign?_eq_some_iff.mp access).trans (acrossGap.trans (across_of_base? baseClass)))))))

omit isWordText

/-- The first head at or behind a byte offset of a text. -/
def find? (base text : String) (offset : Nat) : Option ClassHead :=
  ((atOrAfter? text.toList offset).bind (next? base)).map (·.1)

theorem head?_all (base text : String) (offset : Nat) :
    (all base text offset).head? = find? base text offset := by
  rw [all, find?]
  cases atOrAfter? text.toList offset with
  | none => rfl
  | some cursor =>
      simp only [Option.bind_some, next?]
      cases first : first? (read? base.toList) cursor with
      | none => rw [occurrences_eq_nil first]; rfl
      | some found => rw [occurrences_eq_cons (advances_read? _) first]; rfl

/-- Whether a head is the first of a text that starts at or behind an offset. -/
structure IsFirst (base text : String) (offset : Nat) (head : ClassHead) : Prop where
  occurs : ∃ start stop, start.text = text.toList ∧ Occurs base.toList start stop ∧
    head.start = start.offset ∧ head.stop = stop.offset
  behind : offset ≤ head.start
  first : ∀ start stop, start.text = text.toList → Occurs base.toList start stop →
    offset ≤ start.offset → head.start ≤ start.offset

theorem isFirst_of_find? {base text : String} (isWordText : IsWordText base.toList) {offset : Nat}
    {head : ClassHead} (found : find? base text offset = some head) :
    IsFirst base text offset head := by
  obtain ⟨⟨_, stop⟩, search, rfl⟩ := Option.map_eq_some_iff.mp found
  obtain ⟨start, reads, sameText, behind, nowhere⟩ := first_of_atOrAfter? search
  obtain ⟨occurs, atStart, atStop⟩ := occurs_of_read? isWordText reads
  refine ⟨⟨start, stop, sameText, occurs, atStart, atStop⟩, atStart ▸ behind, ?_⟩
  intro other otherStop otherText otherOccurs otherBehind
  obtain ⟨name, readsOther⟩ := read?_of_occurs isWordText otherOccurs
  rcases Nat.lt_or_ge other.offset start.offset with less | atLeast
  · rw [nowhere other otherText otherBehind less] at readsOther
    cases readsOther
  · exact atStart ▸ atLeast

theorem lt_of_find?_eq_none {base text : String} (isWordText : IsWordText base.toList)
    {offset : Nat} (nothing : find? base text offset = none) {start stop : Cursor}
    (sameText : start.text = text.toList) (occurs : Occurs base.toList start stop) :
    start.offset < offset := by
  obtain ⟨name, reads⟩ := read?_of_occurs isWordText occurs
  rcases Nat.lt_or_ge start.offset offset with less | behind
  · exact less
  · rw [eq_none_of_atOrAfter? (Option.map_eq_none_iff.mp nothing) sameText behind] at reads
    cases reads

end ClassHead

end ScriptRegistrar
