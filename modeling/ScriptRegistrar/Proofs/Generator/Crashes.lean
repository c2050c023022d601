import ScriptRegistrar.Proofs.Generator.RunFrame
import ScriptRegistrar.Proofs.SlicedInjection

/-!
# Runs that break off

Where places are byte offsets, a run can break off in two ways: a cut at an offset fails, or the
path of the file beside a header cannot be formed.  No cut fails, whatever the headers hold.  The
path cannot be formed if the source extension holds a slash, which a valid configuration may have,
and a run then breaks off as soon as there is a class to look up.  A build that checks its sums for
overflow breaks off in a third way, where a parameter list has `2 ^ 32` brackets open at once; by
`ParameterList.Nesting.toNat_steps_le` no list does that opens fewer.
-/

namespace ScriptRegistrar

open Text FileTree

theorem HandRegistration.siblingPath?_eq_none_iff {config : Config} {root header : Path} :
    siblingPath? config root header = none ↔ '/' ∈ config.sourceExtension.toList := by
  rw [siblingPath?, Path.withExtension?]
  dsimp only
  split
  · rename_i slash
    simpa using slash
  · rename_i noSlash
    constructor
    · intro unformed
      split at unformed <;> cases unformed
    · intro slash
      exact absurd (List.contains_iff_mem.mpr slash) noSlash

theorem HandRegistration.isByHand?_eq_none_iff {config : Config} {tree : FileTree} {root : Path}
    {script : ScriptClass} :
    isByHand? config tree root script = none ↔ '/' ∈ config.sourceExtension.toList := by
  rw [← @siblingPath?_eq_none_iff config root script.header, isByHand?]
  cases siblingPath? config root script.header with
  | none => simp
  | some sibling =>
      simp only [Option.bind_eq_bind, Option.bind_some]
      cases tree.readText sibling <;> simp

namespace Generator

variable {generator : Generator} {tree : FileTree} {root project : Path}

theorem aggregate?_eq_none_iff {scripts : List ScriptClass} :
    generator.aggregate? tree root scripts = none ↔
      '/' ∈ generator.config.sourceExtension.toList ∧ ∃ script ∈ scripts, script.excluded = false := by
  have unless_all : generator.aggregate? tree root scripts = none ↔
      ¬ ∀ script ∈ scripts.filter (!·.excluded),
        (HandRegistration.isByHand? generator.config tree root script).isSome = true := by
    rw [← List.all_eq_true]
    unfold aggregate?
    dsimp only
    split
    · rename_i all
      exact iff_of_false (Option.some_ne_none _) (not_not_intro all)
    · rename_i notAll
      exact iff_of_true rfl notAll
  rw [unless_all]
  constructor
  · intro fails
    obtain ⟨script, fails⟩ := not_forall.mp fails
    obtain ⟨listed, fails⟩ := Classical.not_imp.mp fails
    obtain ⟨member, included⟩ := List.mem_filter.mp listed
    rw [Option.not_isSome_iff_eq_none] at fails
    exact ⟨HandRegistration.isByHand?_eq_none_iff.mp fails, script, member, by simpa using included⟩
  · rintro ⟨slash, script, member, included⟩ all
    have found := all script (List.mem_filter.mpr ⟨member, by simpa using included⟩)
    rw [HandRegistration.isByHand?_eq_none_iff.mpr slash] at found
    cases found

/-- Whether a run breaks off because the path of a file beside a header cannot be formed. -/
def BreaksOff (generator : Generator) (tree : FileTree) (project : Path) : Prop :=
  ∃ extension, (generator.generate tree project).result = .error (.sourceExtension extension)

theorem breaksOff_iff_aggregate?
    (isDirectory : tree.isDirectory (generator.config.scriptsRoot project) = true) :
    generator.BreaksOff tree project ↔
      generator.aggregate? tree (generator.config.scriptsRoot project)
        (generator.scan tree project).records = none := by
  unfold BreaksOff
  delta generate
  simp only [scriptsRoot_scan rfl isDirectory]
  cases generator.aggregate? tree (generator.config.scriptsRoot project)
      (generator.scan tree project).records with
  | none => simp
  | some text =>
      dsimp only
      cases tree.writeText (generator.aggregatePath (generator.config.scriptsRoot project)) text with
      | error cause => simp
      | ok written => simp

/-- Every text is read and updated without a failing cut, and a run breaks off exactly if it has a
class to look up beside its header and the source extension holds a slash. -/
theorem breaksOff_iff (generator : Generator) (tree : FileTree) (project : Path) :
    (∀ text header, generator.scanner.sliceFrom? header text.toList 0 =
      some (generator.scanner.scanHeader text header)) ∧
    (∀ className messages text,
      Injection.slice? className generator.config.registration.statement messages text =
        some (Injection.update? className generator.config.registration.statement messages text)) ∧
    (generator.BreaksOff tree project ↔
      '/' ∈ generator.config.sourceExtension.toList ∧
        tree.isDirectory (generator.config.scriptsRoot project) = true ∧
          ∃ script ∈ (generator.scan tree project).records, script.excluded = false) := by
  refine ⟨generator.scanner.slice?_eq, fun className messages text =>
    Injection.slice?_eq className _ messages text, ?_⟩
  cases isDirectory : tree.isDirectory (generator.config.scriptsRoot project) with
  | false =>
      rw [BreaksOff, generate_of_not_directory isDirectory]
      simp
  | true =>
      rw [breaksOff_iff_aggregate? isDirectory, aggregate?_eq_none_iff]
      simp

/-- A valid configuration may have a source extension that breaks a run off. -/
theorem breaksOff_of_slash :
    ¬ ∀ (generator : Generator) (tree : FileTree) (project : Path), tree.Proper →
      ¬ generator.BreaksOff tree project := by
  intro claimed
  let generator : Generator :=
    ⟨{ baseClass := "B", sourceExtension := "a/b" }, .engineDefault, rfl⟩
  let tree : FileTree := ⟨[(["p"], .directory), (["p", "Scripts"], .directory),
    (["p", "Scripts", "Door.h"], .file (Utf8.encode "class Door:public B\x7b\x7d;"))], []⟩
  have included : ∃ script ∈ (generator.scan tree ⟨"p"⟩).records, script.excluded = false := by
    decide +kernel
  have unwritten : generator.aggregate? tree (generator.config.scriptsRoot ⟨"p"⟩)
      (generator.scan tree ⟨"p"⟩).records = none :=
    aggregate?_eq_none_iff.mpr ⟨by decide, included⟩
  exact claimed generator tree ⟨"p"⟩ (by decide +kernel)
    ((breaksOff_iff_aggregate? (by decide +kernel)).mpr unwritten)

end Generator

end ScriptRegistrar
