import ScriptRegistrar.Members

/-!
# Crediting messages

Messages are credited one after the other, and one whose function already handles a message is
left out.  So what is kept of several searches is what `keepFirst` keeps of all they found, and a
later find of a function that an earlier search found makes no difference.
-/

namespace ScriptRegistrar.Text

variable {α β : Type} [DecidableEq β]

theorem mem_of_mem_keepFirst {key : α → β} {members : List α} {member : α}
    (kept : member ∈ keepFirst key members) : member ∈ members := by
  induction members with
  | nil => cases kept
  | cons first rest induction =>
      rcases List.mem_cons.mp kept with rfl | later
      · exact List.mem_cons_self
      · exact List.mem_cons_of_mem first (induction (List.mem_filter.mp later).1)

/-- A condition on keys may be asked for before or after. -/
theorem filter_keepFirst (key : α → β) (keeps : β → Bool) (members : List α) :
    (keepFirst key members).filter (fun member => keeps (key member)) =
      keepFirst key (members.filter fun member => keeps (key member)) := by
  induction members with
  | nil => rfl
  | cons member rest induction =>
      cases kept : keeps (key member) with
      | true =>
          have swap : ∀ others : List α,
              (others.filter (key · ≠ key member)).filter (fun other => keeps (key other)) =
                (others.filter fun other => keeps (key other)).filter (key · ≠ key member) := by
            intro others
            rw [List.filter_filter, List.filter_filter]
            exact List.filter_congr fun other _ => Bool.and_comm _ _
          rw [List.filter_cons_of_pos (by simpa using kept), keepFirst, keepFirst,
            List.filter_cons_of_pos (by simpa using kept), swap, induction]
      | false =>
          have dropped : ∀ others : List α,
              (others.filter (key · ≠ key member)).filter (fun other => keeps (key other)) =
                others.filter fun other => keeps (key other) := by
            intro others
            rw [List.filter_filter]
            apply List.filter_congr
            intro other _
            cases passes : keeps (key other) with
            | false => rfl
            | true =>
                have different : key other ≠ key member := by
                  intro equality
                  rw [equality, kept] at passes
                  cases passes
                simp [different]
          rw [List.filter_cons_of_neg (by simpa using kept), keepFirst,
            List.filter_cons_of_neg (by simpa using kept), dropped, induction]

theorem keepFirst_append (key : α → β) (left right : List α) :
    keepFirst key (left ++ right) =
      keepFirst key left ++ (keepFirst key right).filter fun member => !(left.map key).contains
        (key member) := by
  induction left with
  | nil => exact (List.filter_eq_self.mpr (by simp)).symm
  | cons member rest induction =>
      rw [List.cons_append, keepFirst, keepFirst, induction, List.filter_append, List.cons_append,
        List.filter_filter]
      congr 2
      apply List.filter_congr
      intro other _
      by_cases same : key other = key member <;> simp [same]

theorem keepFirst_append_congr (key : α → β) {left right other : List α}
    (same : (right.filter fun member => !(left.map key).contains (key member)) =
      other.filter fun member => !(left.map key).contains (key member)) :
    keepFirst key (left ++ right) = keepFirst key (left ++ other) := by
  have before := filter_keepFirst key (fun value => !(left.map key).contains value)
  rw [keepFirst_append, keepFirst_append, before, before, same]

end ScriptRegistrar.Text

namespace ScriptRegistrar.Members

open Text

/-- What is credited in addition to `kept`. -/
theorem foldl_credit (messages kept : List Message) :
    messages.foldl credit kept =
      kept ++ (keepFirst (·.function) messages).filter fun message =>
        !(kept.map (·.function)).contains message.function := by
  induction messages generalizing kept with
  | nil => simp [keepFirst]
  | cons message rest induction =>
      rw [List.foldl_cons, induction, keepFirst, credit]
      by_cases known : message.function ∈ kept.map (·.function)
      · have handled : kept.any (·.function = message.function) = true := by
          obtain ⟨other, listed, same⟩ := List.mem_map.mp known
          exact List.any_eq_true.mpr ⟨other, listed, by simpa using same⟩
        rw [if_pos handled, List.filter_cons_of_neg (by simpa using known), List.filter_filter]
        congr 1
        apply List.filter_congr
        intro other _
        by_cases same : other.function = message.function
        · simp [same] at known ⊢
          exact known
        · simp [same]
      · have notHandled : ¬ kept.any (·.function = message.function) = true := by
          intro handled
          obtain ⟨other, listed, same⟩ := List.any_eq_true.mp handled
          exact known (List.mem_map.mpr ⟨other, listed, by simpa using same⟩)
        rw [if_neg notHandled, List.filter_cons_of_pos (by simpa using known), List.filter_filter,
          List.append_assoc, List.singleton_append]
        congr 2
        apply List.filter_congr
        intro other _
        rw [Bool.eq_iff_iff]
        simp [and_comm]

@[simp] theorem foldl_credit_nil (messages : List Message) :
    messages.foldl credit [] = keepFirst (·.function) messages := by
  simp [foldl_credit]

theorem messagesOf_eq_keepFirst (markers : Markers) (table : SignatureTable) (body : List Char) :
    messagesOf markers table body = keepFirst (·.function)
      (found .marker markers table body ++ found .namedMarker markers table body ++
        found .signature markers table body) := by
  rw [← foldl_credit_nil, List.foldl_append, List.foldl_append]
  rfl

end ScriptRegistrar.Members
