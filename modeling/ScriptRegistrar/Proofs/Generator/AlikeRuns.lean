import ScriptRegistrar.Proofs.FileTree.Agreement
import ScriptRegistrar.Proofs.Generator.Runs

/-!
# Runs over trees that agree

Bringing a class up to date does the same in two trees that agree on its header, and leaves trees
that agree wherever they did before.  So a run over some headers does the same for all headers in
which two trees agree, whatever it does for the others.
-/

namespace ScriptRegistrar

open Text FileTree

namespace Generator

variable {generator : Generator} {tree other : FileTree} {touched : List Location}
  {root path : Path}

theorem injectInto_alike (proper : tree.Proper) (changes : ChangesOnly touched tree other)
    (untouched : tree.statedLocation path ∉ touched) (sameRead : other.read path = tree.read path)
    (script : ScriptClass) :
    (generator.injectInto path script other).2 = (generator.injectInto path script tree).2 ∧
      ChangesOnly touched (generator.injectInto path script tree).1
        (generator.injectInto path script other).1 := by
  have sameText : other.readText path = tree.readText path := by
    rw [readText, sameRead, readText]
  cases reads : tree.readText path with
  | error failure =>
      simp only [injectInto, sameText, reads]
      exact ⟨trivial, changes⟩
  | ok text =>
      obtain ⟨content, readsContent, _⟩ := readText_eq_ok_iff.mp reads
      obtain ⟨location, located, stands⟩ := read_eq_ok_iff.mp readsContent
      rw [← eq_of_locate located] at untouched
      cases injects : Injection.inject? script.name generator.config.registration.statement
          script.messages text with
      | none =>
          simp only [injectInto, sameText, reads, injects]
          exact ⟨trivial, changes⟩
      | some injected =>
          by_cases same : injected = text
          · simp only [injectInto, sameText, reads, injects, if_pos same]
            exact ⟨trivial, changes⟩
          · simp only [injectInto, sameText, reads, injects, if_neg same]
            obtain ⟨sameFailure, alike⟩ :=
              replace_alike proper changes located stands untouched injected
            generalize Replacement.replace injected path tree = first at sameFailure alike ⊢
            generalize Replacement.replace injected path other = second at sameFailure alike ⊢
            obtain ⟨replaced, failure?⟩ := first
            obtain ⟨rewritten, otherFailure?⟩ := second
            cases sameFailure
            cases failure? with
            | none => exact ⟨rfl, alike⟩
            | some failure => exact ⟨rfl, alike⟩

theorem injectAll_eq_of_changesOnly (proper : tree.Proper) (changes : ChangesOnly [] tree other)
    (scripts : List ScriptClass) :
    (generator.injectAll root other scripts).2 = (generator.injectAll root tree scripts).2 ∧
      ChangesOnly [] (generator.injectAll root tree scripts).1
        (generator.injectAll root other scripts).1 := by
  induction scripts generalizing tree other with
  | nil => exact ⟨rfl, changes⟩
  | cons script rest induction =>
      have step := @injectInto_alike generator tree other [] (root.join script.header) proper changes
        List.not_mem_nil (read_eq_of_changesOnly changes _) script
      have properStep : (generator.injectInto (root.join script.header) script tree).1.Proper :=
        proper_injectAll proper [script]
      obtain ⟨sameNotes, alike⟩ := induction properStep step.2
      simp only [injectAll]
      exact ⟨by rw [sameNotes, step.1], alike⟩

theorem path_of_mem_injectAll {scripts : List ScriptClass} {note : InjectionNote}
    (ofHeader : ∀ script ∈ scripts, root.join script.header = path)
    (noted : note ∈ (generator.injectAll root tree scripts).2) : note.path = path := by
  induction scripts generalizing tree with
  | nil => cases noted
  | cons script rest induction =>
      obtain ⟨here, others⟩ := List.forall_mem_cons.mp ofHeader
      simp only [injectAll, List.mem_cons] at noted
      rcases noted with rfl | later
      · exact here
      · exact induction others later

theorem injectAll_alike_of_header (proper : tree.Proper)
    (changes : ChangesOnly touched tree other) (untouched : tree.statedLocation path ∉ touched)
    {content : Bytes} (reads : tree.read path = .ok content) {scripts : List ScriptClass}
    (ofHeader : ∀ script ∈ scripts, root.join script.header = path) :
    (generator.injectAll root other scripts).2 = (generator.injectAll root tree scripts).2 ∧
      ChangesOnly touched (generator.injectAll root tree scripts).1
        (generator.injectAll root other scripts).1 := by
  induction scripts generalizing tree other content with
  | nil => exact ⟨rfl, changes⟩
  | cons script rest induction =>
      obtain ⟨here, others⟩ := List.forall_mem_cons.mp ofHeader
      have readsOther := (read_of_changesOnly changes untouched).mpr reads
      obtain ⟨sameResult, step⟩ := @injectInto_alike generator tree other touched path proper changes
        untouched (readsOther.trans reads.symm) script
      obtain ⟨location, located, stands⟩ := read_eq_ok_iff.mp reads
      have outcome := @headerOutcome generator tree root path proper location content located stands
        [script] (List.forall_mem_singleton.mpr here)
      simp only [injectAll, here] at outcome ⊢
      obtain ⟨left, standsLeft, _⟩ := outcome.header
      have readsLeft := read_eq_ok_iff.mpr
        ⟨location, outcome.changes.same.locate located (by rw [standsLeft]; rfl), standsLeft⟩
      have stillUntouched : (generator.injectInto path script tree).1.statedLocation path ∉
          touched := by
        rwa [outcome.changes.same.statedLocation]
      obtain ⟨sameNotes, alike⟩ :=
        induction outcome.changes.proper step stillUntouched readsLeft others
      exact ⟨by rw [sameNotes, sameResult], alike⟩

/-- What the headers of two runs have in common that are the same but for one header. -/
structure HeadersAgree (generator : Generator) (touched : List Location) (root own : Path)
    (headers : List Path) (scriptsOf otherScriptsOf : Path → List ScriptClass)
    (tree other : FileTree) : Prop where
  sameScripts : ∀ path ∈ headers, path ≠ own → otherScriptsOf path = scriptsOf path
  untouched : ∀ path ∈ headers, path ≠ own → tree.statedLocation path ∉ touched
  touchedOwn : ∀ location ∈ touchedBy tree [own], location ∈ touched
  ofHeader : ∀ path ∈ headers, ∀ script ∈ scriptsOf path, root.join script.header = path
  ofOtherHeader : ∀ path ∈ headers, ∀ script ∈ otherScriptsOf path, root.join script.header = path
  readable : ∀ path ∈ headers, scriptsOf path ≠ [] → ∃ content, tree.read path = .ok content
  otherReadable : ∀ path ∈ headers, otherScriptsOf path ≠ [] →
    ∃ content, other.read path = .ok content
  apart : Apart tree headers

namespace HeadersAgree

variable {own : Path} {headers : List Path} {scriptsOf otherScriptsOf : Path → List ScriptClass}

/-- Behind the first header the others still agree. -/
theorem tail {middle between : FileTree} (same : SameDirectories tree other)
    (agree : HeadersAgree generator touched root own (path :: headers) scriptsOf otherScriptsOf tree
      other)
    (first : ChangesOnly (touchedBy tree [path]) tree middle)
    (second : ChangesOnly (touchedBy other [path]) other between) :
    HeadersAgree generator touched root own headers scriptsOf otherScriptsOf middle between := by
  have stated : ∀ path, middle.statedLocation path = tree.statedLocation path :=
    first.same.statedLocation
  have later : ∀ {other : Path}, other ∈ headers → other ∈ path :: headers :=
    List.mem_cons_of_mem path
  have sameTouched : touchedBy other [path] = touchedBy tree [path] := by
    simp only [touchedBy, same.statedLocation]
  constructor
  case sameScripts => exact fun path listed => agree.sameScripts path (later listed)
  case untouched =>
    intro path listed different
    rw [stated]
    exact agree.untouched path (later listed) different
  case touchedOwn =>
    intro location member
    simp only [touchedBy, stated] at member
    exact agree.touchedOwn location member
  case ofHeader => exact fun path listed => agree.ofHeader path (later listed)
  case ofOtherHeader => exact fun path listed => agree.ofOtherHeader path (later listed)
  case readable =>
    intro next listed someScripts
    obtain ⟨content, reads⟩ := agree.readable next (later listed) someScripts
    exact ⟨content, (read_of_changesOnly first (agree.apart.untouched next listed)).mpr reads⟩
  case otherReadable =>
    intro next listed someScripts
    obtain ⟨content, reads⟩ := agree.otherReadable next (later listed) someScripts
    refine ⟨content, (read_of_changesOnly second ?_).mpr reads⟩
    rw [sameTouched, same.statedLocation]
    exact agree.apart.untouched next listed
  case apart =>
    constructor
    · simpa only [stated] using (List.pairwise_cons.mp agree.apart.distinct).2
    · intro left inLeft right inRight
      rw [stated, stated]
      exact agree.apart.backups left (later inLeft) right (later inRight)

/-- For the first header, unless it is the one that may differ, a run does the same in both
trees. -/
theorem injectAll_alike_head (proper : tree.Proper) (changes : ChangesOnly touched tree other)
    (agree : HeadersAgree generator touched root own (path :: headers) scriptsOf otherScriptsOf tree
      other)
    (first : ChangesOnly (touchedBy tree [path]) tree
      (generator.injectAll root tree (scriptsOf path)).1)
    (second : ChangesOnly (touchedBy other [path]) other
      (generator.injectAll root other (otherScriptsOf path)).1) :
    (generator.injectAll root other (otherScriptsOf path)).2.filter (·.path ≠ own) =
        (generator.injectAll root tree (scriptsOf path)).2.filter (·.path ≠ own) ∧
      ChangesOnly touched (generator.injectAll root tree (scriptsOf path)).1
        (generator.injectAll root other (otherScriptsOf path)).1 := by
  have listed : path ∈ path :: headers := List.mem_cons_self
  by_cases isOwn : path = own
  · -- All that the header's own classes touch may differ, and their notes do not count.
    subst isOwn
    have nothing : ∀ {tree : FileTree} {scripts : List ScriptClass},
        (∀ script ∈ scripts, root.join script.header = path) →
          (generator.injectAll root tree scripts).2.filter (·.path ≠ path) = [] := by
      intro tree scripts ofHeader
      apply List.filter_eq_nil_iff.mpr
      intro note noted
      simp [path_of_mem_injectAll ofHeader noted]
    have sameTouched : touchedBy other [path] = touchedBy tree [path] := by
      simp only [touchedBy, changes.same.statedLocation]
    rw [nothing (agree.ofHeader path listed), nothing (agree.ofOtherHeader path listed)]
    refine ⟨rfl, changes.step first (sameTouched ▸ second) ?_⟩
    exact fun location member outside => (outside (agree.touchedOwn location member)).elim
  · -- Both trees hold the same text of any other header, with the same classes.
    rw [agree.sameScripts path listed isOwn]
    by_cases someScripts : scriptsOf path = []
    · rw [someScripts]
      exact ⟨rfl, changes⟩
    · obtain ⟨content, reads⟩ := agree.readable path listed someScripts
      obtain ⟨sameNotes, alike⟩ := @injectAll_alike_of_header generator tree other touched root
        path proper changes (agree.untouched path listed isOwn) content reads _
        (agree.ofHeader path listed)
      exact ⟨by rw [sameNotes], alike⟩

theorem injectAll_alike (proper : tree.Proper) (changes : ChangesOnly touched tree other)
    (agree : HeadersAgree generator touched root own headers scriptsOf otherScriptsOf tree other) :
    (generator.injectAll root other (headers.flatMap otherScriptsOf)).2.filter (·.path ≠ own) =
        (generator.injectAll root tree (headers.flatMap scriptsOf)).2.filter (·.path ≠ own) ∧
      ChangesOnly touched (generator.injectAll root tree (headers.flatMap scriptsOf)).1
        (generator.injectAll root other (headers.flatMap otherScriptsOf)).1 := by
  induction headers generalizing tree other with
  | nil => exact ⟨rfl, changes⟩
  | cons path rest induction =>
      have listed : path ∈ path :: rest := List.mem_cons_self
      have first := (@headersOutcome_singleton generator tree root path proper scriptsOf
        (agree.ofHeader path listed) (agree.readable path listed)).changes
      have second := (@headersOutcome_singleton generator other root path changes.proper
        otherScriptsOf (agree.ofOtherHeader path listed) (agree.otherReadable path listed)).changes
      obtain ⟨sameNotes, alike⟩ := agree.injectAll_alike_head proper changes first second
      obtain ⟨sameLaterNotes, finished⟩ :=
        induction first.proper alike (agree.tail changes.same first second)
      rw [List.flatMap_cons, List.flatMap_cons, injectAll_append, injectAll_append,
        List.filter_append, List.filter_append, sameNotes, sameLaterNotes]
      exact ⟨rfl, finished⟩

end HeadersAgree

end Generator

end ScriptRegistrar
