import ScriptRegistrar.Proofs.MessagePrecedence

/-!
# Tables of signatures

A larger table credits more bare declarations and takes nothing away: the marked messages stay as
they are, and so do the functions that were credited.  One function may be declared more than once,
and a larger table may credit it by an earlier declaration, so the messages themselves can change.
How the entries of a table are written, in what order and how often, makes no difference.
-/

namespace ScriptRegistrar

open Text

/-- Whether two signatures accept the same declarations: they have one name, and parameters whose
types agree in their normal forms. -/
def Signature.Alike (left right : Signature) : Prop :=
  left.name = right.name ∧
    left.parameters.map TypeText.normalize = right.parameters.map TypeText.normalize

namespace Signature

instance (left right : Signature) : Decidable (left.Alike right) :=
  inferInstanceAs (Decidable (_ ∧ _))

theorem Alike.refl (signature : Signature) : signature.Alike signature :=
  ⟨rfl, rfl⟩

theorem Alike.symm {left right : Signature} (alike : left.Alike right) : right.Alike left :=
  ⟨alike.1.symm, alike.2.symm⟩

theorem Alike.trans {first second third : Signature} (before : first.Alike second)
    (after : second.Alike third) : first.Alike third :=
  ⟨before.1.trans after.1, before.2.trans after.2⟩

theorem Alike.accepts_eq {left right : Signature} (alike : left.Alike right) (name : String)
    (parameters : List String) : left.accepts name parameters = right.accepts name parameters := by
  rw [accepts, accepts, alike.1, alike.2]

end Signature

namespace SignatureTable

/-- Whether every signature of a table has one like it in a larger table. -/
def Covers (larger table : SignatureTable) : Prop :=
  ∀ signature ∈ table.entries, ∃ other ∈ larger.entries, signature.Alike other

instance (larger table : SignatureTable) : Decidable (larger.Covers table) :=
  inferInstanceAs (Decidable (∀ signature ∈ table.entries, ∃ other ∈ larger.entries,
    signature.Alike other))

namespace Covers

variable {first second third : SignatureTable}

theorem trans (before : first.Covers second) (after : second.Covers third) :
    first.Covers third := by
  intro signature listed
  obtain ⟨middle, inMiddle, alike⟩ := after signature listed
  obtain ⟨other, inFirst, furtherAlike⟩ := before middle inMiddle
  exact ⟨other, inFirst, alike.trans furtherAlike⟩

theorem of_subset (subset : second.entries ⊆ first.entries) : first.Covers second :=
  fun signature listed => ⟨signature, subset listed, .refl signature⟩

theorem accepts {larger table : SignatureTable} (covers : larger.Covers table) {name : String}
    {parameters : List String} (accepted : table.accepts name parameters = true) :
    larger.accepts name parameters = true := by
  obtain ⟨signature, listed, accepted⟩ := List.any_eq_true.mp accepted
  obtain ⟨other, inLarger, alike⟩ := covers signature listed
  exact List.any_eq_true.mpr ⟨other, inLarger, alike.accepts_eq name parameters ▸ accepted⟩

end Covers

/-- Whether the entries of two tables are the same signatures, written in any order, any number of
times and with any spelling of their types. -/
inductive Reworded : List Signature → List Signature → Prop where
  | permuted {entries others : List Signature} (permutation : entries.Perm others) :
      Reworded entries others
  | duplicated {entry : Signature} {entries : List Signature} (listed : entry ∈ entries) :
      Reworded entries (entry :: entries)
  | respelt {entry other : Signature} (alike : entry.Alike other) (before behind : List Signature) :
      Reworded (before ++ entry :: behind) (before ++ other :: behind)
  | symm {entries others : List Signature} (reworded : Reworded entries others) :
      Reworded others entries
  | trans {entries middle others : List Signature} (first : Reworded entries middle)
      (second : Reworded middle others) : Reworded entries others

theorem covers_of_respelt {entry other : Signature} (alike : entry.Alike other)
    (before behind : List Signature) :
    Covers ⟨before ++ other :: behind⟩ ⟨before ++ entry :: behind⟩ := by
  intro signature listed
  rcases List.mem_append.mp listed with inBefore | here
  · exact ⟨signature, List.mem_append_left _ inBefore, .refl signature⟩
  · rcases List.mem_cons.mp here with rfl | inBehind
    · exact ⟨other, by simp, alike⟩
    · exact ⟨signature, by simp [inBehind], .refl signature⟩

/-- Reworded tables cover one another. -/
theorem covers_of_reworded {entries others : List Signature} (reworded : Reworded entries others) :
    Covers ⟨others⟩ ⟨entries⟩ ∧ Covers ⟨entries⟩ ⟨others⟩ := by
  induction reworded with
  | permuted permutation =>
      exact ⟨.of_subset permutation.subset, .of_subset permutation.symm.subset⟩
  | duplicated listed =>
      exact ⟨.of_subset (List.subset_cons_self _ _),
        .of_subset (List.cons_subset.mpr ⟨listed, List.Subset.refl _⟩)⟩
  | respelt alike before behind =>
      exact ⟨covers_of_respelt alike before behind, covers_of_respelt alike.symm before behind⟩
  | symm _ induction => exact ⟨induction.2, induction.1⟩
  | trans _ _ first second => exact ⟨second.1.trans first.1, first.2.trans second.2⟩

theorem accepts_eq_of_reworded {table other : SignatureTable}
    (reworded : Reworded table.entries other.entries) (name : String) (parameters : List String) :
    table.accepts name parameters = other.accepts name parameters := by
  obtain ⟨forward, backward⟩ := covers_of_reworded reworded
  rw [Bool.eq_iff_iff]
  exact ⟨forward.accepts, backward.accepts⟩

end SignatureTable

namespace Members

variable {markers : Markers} {table larger : SignatureTable} {body : List Char}

/-- The messages of marked declarations. -/
def markedMessages (markers : Markers) (body : List Char) : List Message :=
  keepFirst (·.function)
    ((Handler.Declaration.all (Handler.Head.readMarked? markers.message.toList) body).map
        (Handler.Declaration.message .marker) ++
      (Handler.Declaration.all (Handler.Head.readNamed? markers.namedMessage.toList) body).map
        (Handler.Declaration.message .namedMarker))

theorem messagesOf_eq_append (markers : Markers) (table : SignatureTable) (body : List Char) :
    ∃ bare : List Message, messagesOf markers table body = markedMessages markers body ++ bare ∧
      ∀ message ∈ bare, message.rule = .signature := by
  refine ⟨_, (messagesOf_eq_keepFirst markers table body).trans (keepFirst_append _ _ _), ?_⟩
  intro message listed
  exact rule_of_mem_found (mem_of_mem_keepFirst (List.mem_filter.mp listed).1)

theorem rule_of_mem_markedMessages {message : Message}
    (listed : message ∈ markedMessages markers body) : message.rule ≠ .signature := by
  rcases List.mem_append.mp (mem_of_mem_keepFirst listed) with plain | named
  · have rule : message.rule = .marker := @rule_of_mem_found markers .engineDefault body _ _ plain
    rw [rule]
    decide
  · have rule : message.rule = .namedMarker :=
      @rule_of_mem_found markers .engineDefault body _ _ named
    rw [rule]
    decide

theorem filter_messagesOf (markers : Markers) (table : SignatureTable) (body : List Char) :
    (messagesOf markers table body).filter (·.rule ≠ .signature) = markedMessages markers body := by
  obtain ⟨bare, equality, bareRules⟩ := messagesOf_eq_append markers table body
  have marked : (markedMessages markers body).filter (·.rule ≠ .signature) =
      markedMessages markers body :=
    List.filter_eq_self.mpr fun _ listed => by simpa using rule_of_mem_markedMessages listed
  have noBare : bare.filter (·.rule ≠ .signature) = [] :=
    List.filter_eq_nil_iff.mpr fun message listed => by simp [bareRules message listed]
  rw [equality, List.filter_append, marked, noBare, List.append_nil]

/-- What a table finds a larger one finds as well. -/
theorem mem_found_of_covers (covers : larger.Covers table) {rule : DiscoveryRule}
    {message : Message} (listed : message ∈ found rule markers table body) :
    message ∈ found rule markers larger body := by
  cases rule with
  | marker => exact listed
  | namedMarker => exact listed
  | signature =>
      obtain ⟨declared, accepted⟩ := List.mem_filter.mp listed
      exact List.mem_filter.mpr ⟨declared, covers.accepts accepted⟩

theorem scan_of_suppressed (suppressed : isSuppressed markers body = true) (table : SignatureTable) :
    scan markers table body = { suppressed := true } :=
  if_pos suppressed

theorem messages_scan (unsuppressed : isSuppressed markers body = false) (table : SignatureTable) :
    (scan markers table body).messages = messagesOf markers table body := by
  rw [scan, if_neg (by simp [unsuppressed])]

theorem scan_congr {other : SignatureTable}
    (same : ∀ name parameters, table.accepts name parameters = other.accepts name parameters) :
    scan markers table body = scan markers other body := by
  have bare : found .signature markers table body = found .signature markers other body :=
    List.filter_congr fun message _ => same message.function message.parameters
  have messages : messagesOf markers table body = messagesOf markers other body := by
    rw [messagesOf_eq_keepFirst, messagesOf_eq_keepFirst, bare]
    rfl
  rw [scan, scan, messages]

/-- More signatures only add messages of bare declarations, and only of functions that had no
message; a table written in another way adds nothing. -/
theorem scan_of_covers (markers : Markers) (body : List Char) {table larger : SignatureTable}
    (covers : larger.Covers table) :
    let few := scan markers table body
    let more := scan markers larger body
    more.messages.filter (·.rule ≠ .signature) = few.messages.filter (·.rule ≠ .signature) ∧
      (∀ message ∈ few.messages, ∃ other ∈ more.messages, other.function = message.function) ∧
      (∀ message ∈ more.messages, (∀ other ∈ few.messages, other.function ≠ message.function) →
        message.rule = .signature) ∧
      ∀ other : SignatureTable, SignatureTable.Reworded table.entries other.entries →
        scan markers other body = few := by
  intro few more
  have marked : more.messages.filter (·.rule ≠ .signature) =
      few.messages.filter (·.rule ≠ .signature) := by
    cases suppressed : isSuppressed markers body with
    | true => simp only [few, more, scan_of_suppressed suppressed]
    | false => simp only [few, more, messages_scan suppressed, filter_messagesOf]
  refine ⟨marked, ?_, ?_, ?_⟩
  · intro message listed
    cases suppressed : isSuppressed markers body with
    | true =>
        simp only [few, scan_of_suppressed suppressed] at listed
        cases listed
    | false =>
        simp only [few, more, messages_scan suppressed] at listed ⊢
        exact exists_credited_of_mem_found
          (mem_found_of_covers covers (mem_found_of_mem_messagesOf listed))
  · intro message listed isNew
    by_contra isMarked
    have kept : message ∈ more.messages.filter (·.rule ≠ .signature) :=
      List.mem_filter.mpr ⟨listed, by simpa using isMarked⟩
    rw [marked] at kept
    exact isNew message (List.mem_filter.mp kept).1 rfl
  · intro other reworded
    exact (scan_congr (SignatureTable.accepts_eq_of_reworded reworded)).symm

/-- The larger table credits `Open` by a declaration before the one that counted. -/
theorem scan_of_covers_door :
    let markers : Markers := { message := "M", namedMessage := "N", property := "P" }
    let body := ("void Open(int n);void Open();M()void Lock();void Hit(const Ray& r);" ++
      "void Shut();").toList
    let table : SignatureTable := ⟨[⟨"Open", []⟩, ⟨"Hit", ["Ray *"]⟩]⟩
    let larger : SignatureTable :=
      ⟨[⟨"Hit", ["const Ray&"]⟩, ⟨"Open", ["int const"]⟩, ⟨"Open", []⟩, ⟨"Shut", []⟩]⟩
    larger.Covers table ∧
      (scan markers table body).messages =
        [⟨"Lock", "Lock", [], .marker⟩, ⟨"Open", "Open", [], .signature⟩,
          ⟨"Hit", "Hit", ["Ray"], .signature⟩] ∧
      (scan markers larger body).messages =
        [⟨"Lock", "Lock", [], .marker⟩, ⟨"Open", "Open", ["int"], .signature⟩,
          ⟨"Hit", "Hit", ["Ray"], .signature⟩, ⟨"Shut", "Shut", [], .signature⟩] ∧
      ∀ message ∈ (scan markers larger body).messages,
        (∀ other ∈ (scan markers table body).messages, other.function ≠ message.function) →
          message.rule = .signature := by
  intro markers body table larger
  have covers : larger.Covers table := by decide +kernel
  exact ⟨covers, by decide +kernel, by decide +kernel, (scan_of_covers markers body covers).2.2.1⟩

end Members

end ScriptRegistrar
