import ScriptRegistrar.Generator
import ScriptRegistrar.Proofs.Layout.Members

/-!
# Scanning two layouts of a header

The heads of classes are recognised in every layout, the bodies close alike, and what the bodies
declare is the same.  So a scan reports the same for two texts that differ only in the blanks
between their other characters.
-/

namespace ScriptRegistrar

open Text Text.Cursor Text.Recogniser

namespace Text

theorem words_append_of_blanks {blanks : List Char}
    (blank : ∀ character ∈ blanks, isBlank character = true) (rest : List Char) :
    words (blanks ++ rest) = words rest := by
  induction blanks with
  | nil => rfl
  | cons next others induction =>
      obtain ⟨nextBlank, othersBlank⟩ := List.forall_mem_cons.mp blank
      have dropped : words (next :: (others ++ rest)) = words (others ++ rest) := by
        rw [words, fields, if_pos nextBlank, List.filter_cons_of_neg (by simp)]
        rfl
      rw [List.cons_append, dropped, induction othersBlank]

theorem fields_relaid {left right : List Char} (relaid : Relaid left right) :
    ∃ first rest others, fields isBlank left = first :: rest ∧
      fields isBlank right = first :: others ∧
      rest.filter (!·.isEmpty) = others.filter (!·.isEmpty) := by
  induction relaid with
  | nil => exact ⟨[], [], [], rfl, rfl, rfl⟩
  | @character next left right solid _ induction =>
      obtain ⟨first, rest, others, onLeft, onRight, same⟩ := induction
      have stays : ¬ isBlank next = true := by simp [solid]
      refine ⟨next :: first, rest, others, ?_, ?_, same⟩
      · rw [fields, if_neg stays, onLeft]
      · rw [fields, if_neg stays, onRight]
  | @blanks run other left right first second _ induction =>
      obtain ⟨field, rest, others, onLeft, onRight, same⟩ := induction
      obtain ⟨blank, behindBlank, rfl, isBlank, behindIsBlank⟩ := first.exists_cons
      obtain ⟨otherBlank, behindOther, rfl, isOtherBlank, behindOtherIsBlank⟩ := second.exists_cons
      refine ⟨[], fields Text.isBlank (behindBlank ++ left),
        fields Text.isBlank (behindOther ++ right), ?_, ?_, ?_⟩
      · rw [List.cons_append, fields, if_pos isBlank]
      · rw [List.cons_append, fields, if_pos isOtherBlank]
      · change words (behindBlank ++ left) = words (behindOther ++ right)
        rw [words_append_of_blanks behindIsBlank, words_append_of_blanks behindOtherIsBlank, words,
          words, onLeft, onRight, List.filter_cons, List.filter_cons, same]

theorem words_eq_of_relaid {left right : List Char} (relaid : Relaid left right) :
    words left = words right := by
  obtain ⟨first, rest, others, onLeft, onRight, same⟩ := fields_relaid relaid
  rw [words, words, onLeft, onRight, List.filter_cons, List.filter_cons, same]

end Text

namespace ClassHead

variable {base : List Char} (isWordText : IsWordText base)

include isWordText

theorem base?_of_isBlank {passed rest : List Char} {next : Char} (blank : isBlank next = true) :
    base? base ⟨passed, next :: rest⟩ = none := by
  cases read : base? base ⟨passed, next :: rest⟩ with
  | none => rfl
  | some behind =>
      obtain ⟨ahead, _⟩ := across_of_base? read
      obtain ⟨first, others, rfl⟩ := List.exists_cons_of_ne_nil isWordText.1
      rw [List.cons_append, List.cons.injEq] at ahead
      have solid := isSolid_of_isWordText isWordText first List.mem_cons_self
      rw [← ahead.1, blank] at solid
      exact Bool.noConfusion solid

/-- The base class can stand only behind all blanks that come next. -/
theorem findSome?_behindBlanks (passed ahead : List Char) :
    (behindBlanks passed ahead).findSome? (base? base) =
      (Cursor.mk passed ahead).blanks?.bind (base? base) := by
  induction ahead generalizing passed with
  | nil => rfl
  | cons next rest induction =>
      cases blank : isBlank next with
      | false =>
          rw [behindBlanks, if_neg (by simp [blank]), blanks?, if_neg (by simp [nextIs, blank])]
          rfl
      | true =>
          have passes : (Cursor.mk passed (next :: rest)).blanks? =
              some (Cursor.mk (next :: passed) rest).passBlanks := by
            simp [blanks?, nextIs, passBlanks, passWhile, blank]
          rw [behindBlanks, if_pos blank, List.findSome?_append, induction, passes]
          cases rest with
          | nil => simp [blanks?, nextIs, passBlanks, passWhile]
          | cons second others =>
              cases secondBlank : isBlank second with
              | true =>
                  have nothing := @base?_of_isBlank base isWordText (next :: passed) others second
                    secondBlank
                  simp [blanks?, nextIs, secondBlank, nothing]
              | false =>
                  have stays := @passBlanks_of_not_isBlank (next :: passed) (second :: others)
                    (by simpa using secondBlank)
                  simp [blanks?, nextIs, secondBlank, stays]

theorem base?_alike {left right : Cursor} (alike : left.Alike right) :
    Option.Rel Cursor.Alike (base? base left) (base? base right) := by
  apply rel_bind (alike.literal? (isSolid_of_isWordText isWordText))
  intro behind otherBehind sameBehind
  simp only [sameBehind.isBoundary]
  split
  · exact .some sameBehind
  · exact .none

theorem read?_alike :
    ReadsAlike (AlikeBehind fun first second => first.name = second.name) (read? base) := by
  have inName : IgnoresLayout (fun next => isWord next || isBlank next) := .or .isWord .isBlank
  intro left right alike
  apply rel_bind (rel_guard alike.isBoundary)
  intro _ _ _
  apply rel_bind (rel_or (alike.sign? (show IsSolid "class".toList by decide))
    (alike.sign? (show IsSolid "struct".toList by decide)))
  intro behindKeyword otherBehindKeyword sameBehindKeyword
  apply rel_bind sameBehindKeyword.blanks?
  intro declaration otherDeclaration sameDeclaration
  have sameWords := words_eq_of_relaid (sameDeclaration.ahead.takeWhile inName)
  apply rel_bind (rel_of_eq (congrArg declaredName? sameWords))
  intro name otherName sameName
  apply rel_bind ((sameDeclaration.passWhile inName).sign? (show IsSolid ":".toList by decide))
  intro behindColon otherBehindColon sameBehindColon
  apply rel_bind (sameBehindColon.passBlanks.sign? (show IsSolid "public".toList by decide))
  intro behindAccess otherBehindAccess sameBehindAccess
  rw [findSome?_behindBlanks isWordText, findSome?_behindBlanks isWordText]
  apply rel_bind (rel_bind sameBehindAccess.blanks? fun _ _ same => base?_alike isWordText same)
  intro stop otherStop sameStop
  exact .some ⟨congrArg String.ofList sameName, sameStop⟩

end ClassHead

theorem ClassBody.after_alike (className : String) {left right : Cursor}
    (alike : left.Alike right) :
    (∃ failure, after className left = .error failure ∧ after className right = .error failure) ∨
      ∃ body other, after className left = .ok body ∧ after className right = .ok other ∧
        Relaid body.text other.text ∧ body.behind.Alike other.behind := by
  have opening := alike.passWhile (@IgnoresLayout.ne_sign '\x7b' rfl)
  have sameAhead := opening.ahead
  unfold after
  rcases left.ahead_passWhile_ne '\x7b' with nothing | ⟨rest, ahead⟩
  · have nothingToo := (opening.ahead.eq_nil_iff).mp nothing
    simp only [nothing, nothingToo]
    exact Or.inl ⟨_, rfl, rfl⟩
  · rw [ahead] at sameAhead
    obtain ⟨otherRest, otherAhead, sameRest⟩ := sameAhead.exists_of_cons rfl
    have closed := @Bracketed.close?_relaid '\x7b' '\x7d' rfl rfl (by decide) _ _ sameRest 0
    simp only [ahead, otherAhead, Bracketed.braces?]
    rcases cases_of_rel closed with
      ⟨isOpen, otherIsOpen⟩ | ⟨parts, otherParts, isClosed, otherIsClosed, sameText, sameBehind⟩
    · rw [isOpen, otherIsOpen]
      exact Or.inl ⟨_, rfl, rfl⟩
    · rw [isClosed, otherIsClosed]
      refine Or.inr ⟨_, _, rfl, rfl, sameText, ⟨?_, sameBehind⟩⟩
      exact .character rfl (sameText.reverse.append (.character rfl opening.passed))

namespace Scanner

variable {scanner : Scanner} (base : IsWordText scanner.baseClass.toList)
  (words : scanner.markers.AreWords) (header : Path)

include base words

theorem scanFrom_eq_of_alike {left right : Cursor} (alike : left.Alike right)
    (labels : ∀ place ∈ scanner.placesFrom left,
      Members.HasSolidLabels scanner.markers place.body.text) :
    scanner.scanFrom header left = scanner.scanFrom header right := by
  generalize length : left.ahead.length = bound
  induction bound using Nat.strongRecOn generalizing left right with
  | ind bound induction =>
      have found : Option.Rel (AlikeBehind fun first second => first.name = second.name)
          (ClassHead.next? scanner.baseClass left) (ClassHead.next? scanner.baseClass right) :=
        first?_alike ClassHead.not_isClassKeyword_nil (ClassHead.read?_alike base)
          (ClassHead.begins_read? _) alike
      rcases cases_of_rel found with
        ⟨onLeft, onRight⟩ |
          ⟨⟨head, behindHead⟩, ⟨other, behindOther⟩, onLeft, onRight, names, behind⟩
      · rw [scanFrom_of_none header onLeft, scanFrom_of_none header onRight]
      · simp only at names behind
        rcases ClassBody.after_alike head.name behind with
          ⟨failure, readLeft, readRight⟩ | ⟨body, otherBody, readLeft, readRight, texts, ends⟩
        · rw [names] at readRight
          rw [scanFrom_of_error header onLeft readLeft, scanFrom_of_error header onRight readRight]
        · rw [names] at readRight
          have shorter := ClassBody.length_behind_lt onLeft readLeft
          rw [placesFrom_of_next? onLeft readLeft] at labels
          obtain ⟨bodyLabels, furtherLabels⟩ := List.forall_mem_cons.mp labels
          have others := induction _ (by omega) ends furtherLabels rfl
          have members := @Members.scan_eq_of_relaid _ scanner.table words _ _ texts bodyLabels
          rw [scanFrom_of_next? header onLeft readLeft, scanFrom_of_next? header onRight readRight,
            others, record, record, members, names]

end Scanner

namespace Generator

theorem isWordText_baseClass (generator : Generator) :
    IsWordText generator.scanner.baseClass.toList :=
  isWordText_of_isIdentifier
    (Config.isIdentifier_of_mem_identifiers generator.valid _ List.mem_cons_self)

/-- Two texts that agree once every run of blanks is replaced by a space are scanned alike, if no
label of a named marker has a blank inside. -/
theorem scanHeader_eq_of_squeeze (generator : Generator) (header : Path) {text other : String}
    (same : squeeze text.toList = squeeze other.toList)
    (labels : ∀ place ∈ generator.scanner.places text,
      Members.HasSolidLabels generator.config.markers place.body.text) :
    generator.scanner.scanHeader text header = generator.scanner.scanHeader other header := by
  have identifiers := Config.isIdentifier_of_mem_identifiers generator.valid
  have base : IsWordText generator.scanner.baseClass.toList :=
    isWordText_of_isIdentifier (identifiers _ List.mem_cons_self)
  exact Scanner.scanFrom_eq_of_alike base (Config.areWords_markers generator.valid) header
    (alike_start (relaid_iff_squeeze.mpr same)) labels

/-- A class on two lines and on many, with a label that has blanks around it. -/
theorem scanHeader_eq_of_squeeze_door :
    let generator : Generator :=
      ⟨{ baseClass := "B", markers := { namedMessage := "N" } }, .engineDefault, rfl⟩
    let text := "class Door :public B\x7b\nN( \" Shut \")void Close(Hit const &h, int n);\x7d;"
    let other := "class\tDoor\r\n\r\n:public\nB\x7b\r\nN(\t\"\tShut\n\")void\nClose(" ++
      "Hit\tconst\n &h,\n\tint\tn);\x7d;"
    squeeze text.toList = squeeze other.toList ∧
      (∀ place ∈ generator.scanner.places text,
        Members.HasSolidLabels generator.config.markers place.body.text) ∧
      generator.scanner.scanHeader text ⟨"Door.h"⟩ =
        generator.scanner.scanHeader other ⟨"Door.h"⟩ ∧
      ∃ script ∈ (generator.scanner.scanHeader text ⟨"Door.h"⟩).records,
        script.messages = [⟨"Shut", "Close", ["Hit", "int"], .namedMarker⟩] := by
  intro generator text other
  have same : squeeze text.toList = squeeze other.toList := by decide +kernel
  have labels : ∀ place ∈ generator.scanner.places text,
      Members.HasSolidLabels generator.config.markers place.body.text := by
    decide +kernel
  have reports : ∃ script ∈ (generator.scanner.scanHeader text ⟨"Door.h"⟩).records,
      script.messages = [⟨"Shut", "Close", ["Hit", "int"], .namedMarker⟩] := by
    decide +kernel
  exact ⟨same, labels, scanHeader_eq_of_squeeze generator ⟨"Door.h"⟩ same labels, reports⟩

end Generator

end ScriptRegistrar
