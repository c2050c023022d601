import ScriptRegistrar.Proofs.ClassPlaces
import ScriptRegistrar.Proofs.Crediting

/-!
# Scanned names

The name of a class that a scan finds is a word, and so are the names of its functions.  The name
of a message need not be one.
-/

namespace ScriptRegistrar

open Text Text.Cursor Text.Recogniser

/-- Whether the names in a class that stand for C++ entities are words. -/
structure ScriptClass.HasWordNames (script : ScriptClass) : Prop where
  name : IsWordText script.name.toList
  functions : ∀ message ∈ script.messages, IsWordText message.function.toList

/-- What occurs is read somewhere. -/
theorem Text.Recogniser.exists_read_of_mem_occurrences {α : Type} {read : Recogniser α}
    {cursor : Cursor} {found : α} (member : found ∈ occurrences read cursor) :
    ∃ place next, read place = some (found, next) := by
  generalize length : cursor.ahead.length = bound
  induction bound using Nat.strongRecOn generalizing cursor with
  | ind bound induction =>
      rw [occurrences] at member
      split at member
      · cases member
      · rename_i head next first
        obtain ⟨_, place, _, reads, _⟩ := first_of_firstFrom? first
        split at member
        · rename_i shorter
          rcases List.mem_cons.mp member with rfl | later
          · exact ⟨place, next, reads⟩
          · exact induction next.ahead.length (by omega) later rfl
        · rw [List.mem_singleton.mp member]
          exact ⟨place, next, reads⟩

namespace Handler

theorem Head.isWordText_of_read? {label : List Char} {cursor next : Cursor} {head : Head}
    (read : Head.read? label cursor = some (head, next)) : IsWordText head.function := by
  simp only [Head.read?, Option.bind_eq_bind, Option.bind_eq_some_iff] at read
  obtain ⟨_, _, name, _, ⟨function, behindName⟩, word, _, _, equality⟩ := read
  cases equality
  obtain ⟨_, run, nonempty⟩ := across_of_word? word
  refine ⟨nonempty, ?_⟩
  rw [run]
  exact fun _ member => List.all_eq_true.mp List.all_takeWhile _ member

/-- Whether a recogniser of heads reads names that are words. -/
def ReadsWords (read? : Recogniser Head) : Prop :=
  ∀ cursor head next, read? cursor = some (head, next) → IsWordText head.function

theorem readsWords_readBare? : ReadsWords Head.readBare? := by
  intro cursor head next read
  rw [Head.readBare?] at read
  split at read
  · exact Head.isWordText_of_read? read
  · cases read

theorem readsWords_readMarked? (marker : List Char) : ReadsWords (Head.readMarked? marker) := by
  intro cursor head next read
  simp only [Head.readMarked?, Option.bind_eq_bind, Option.bind_eq_some_iff] at read
  obtain ⟨_, _, _, _, _, _, _, _, declaration⟩ := read
  exact Head.isWordText_of_read? declaration

theorem readsWords_readNamed? (marker : List Char) : ReadsWords (Head.readNamed? marker) := by
  intro cursor head next read
  simp only [Head.readNamed?, Option.bind_eq_bind, Option.bind_eq_some_iff] at read
  obtain ⟨_, _, _, _, _, _, _, _, _, _, _, _, declaration⟩ := read
  exact Head.isWordText_of_read? declaration

/-- A declaration has the label and the function of a head that is read somewhere. -/
theorem exists_head_of_mem_all {read? : Recogniser Head} {text : List Char}
    {declaration : Declaration} (listed : declaration ∈ Declaration.all read? text) :
    ∃ place head next, read? place = some (head, next) ∧ declaration.label = head.label ∧
      declaration.function = head.function := by
  obtain ⟨head, occurs, complete⟩ := List.mem_filterMap.mp listed
  obtain ⟨place, next, read⟩ := exists_read_of_mem_occurrences occurs
  simp only [Head.complete?, Option.bind_eq_bind, Option.bind_eq_some_iff] at complete
  obtain ⟨_, _, _, _, equality⟩ := complete
  cases equality
  exact ⟨place, head, next, read, rfl, rfl⟩

theorem isWordText_of_mem_all {read? : Recogniser Head} (readsWords : ReadsWords read?)
    {text : List Char} {rule : DiscoveryRule} {message : Message}
    (listed : message ∈ (Declaration.all read? text).map (Declaration.message rule)) :
    IsWordText message.function.toList := by
  obtain ⟨declaration, found, rfl⟩ := List.mem_map.mp listed
  obtain ⟨place, head, next, read, _, function⟩ := exists_head_of_mem_all found
  rw [Declaration.message, String.toList_ofList, function]
  exact readsWords place head next read

end Handler

namespace Members

theorem isWordText_of_mem_found {rule : DiscoveryRule} {markers : Markers}
    {table : SignatureTable} {body : List Char} {message : Message}
    (listed : message ∈ found rule markers table body) : IsWordText message.function.toList := by
  cases rule with
  | marker => exact Handler.isWordText_of_mem_all (Handler.readsWords_readMarked? _) listed
  | namedMarker => exact Handler.isWordText_of_mem_all (Handler.readsWords_readNamed? _) listed
  | signature =>
      exact Handler.isWordText_of_mem_all Handler.readsWords_readBare? (List.mem_filter.mp listed).1

theorem isWordText_of_mem_messagesOf {markers : Markers} {table : SignatureTable}
    {body : List Char} {message : Message} (listed : message ∈ messagesOf markers table body) :
    IsWordText message.function.toList := by
  rw [messagesOf_eq_keepFirst] at listed
  have credited := mem_of_mem_keepFirst listed
  simp only [List.mem_append] at credited
  rcases credited with (marked | named) | bare
  · exact isWordText_of_mem_found marked
  · exact isWordText_of_mem_found named
  · exact isWordText_of_mem_found bare

end Members

theorem Scanner.hasWordNames_of_mem_records {scanner : Scanner} {text : String} {header : Path}
    {script : ScriptClass} (listed : script ∈ (scanner.scanHeader text header).records) :
    script.HasWordNames := by
  rw [records_scanHeader] at listed
  obtain ⟨place, found, rfl⟩ := List.mem_map.mp listed
  refine ⟨isWordText_of_mem_places found, ?_⟩
  intro message member
  simp only [recordAt, record, Members.scan] at member
  split at member
  · cases member
  · exact Members.isWordText_of_mem_messagesOf member

end ScriptRegistrar
