import EventPattern.Document.Grammar

/-! The search for ids that are used again.

The search goes through the intervals and keeps what it has seen. What it says of one of them is
that its id is among those before it (`repeatedAt`), so it can be taken apart item by item
(`repeatedIds_cons`, `repeatedIds_eq_flatMap`), and what it has seen matters only as a set
(`SameIds`). -/
namespace EventPattern.Document

/-- An item whose id one of those before it has. -/
def repeatedAt (place : Location) (earlier : List String) (entry : Json × Nat) : List Finding :=
  match entry.1.id? with
  | none => []
  | some id =>
    if earlier.contains id then [⟨.key (.index place entry.2) "id", .duplicateInterval id⟩] else []

/-- What is found at an item is that its id is used again. -/
theorem mem_repeatedAt {place : Location} {earlier : List String} {entry : Json × Nat} {f : Finding}
    (h : f ∈ repeatedAt place earlier entry) :
    ∃ id, entry.1.id? = some id ∧
      f = ⟨.key (.index place entry.2) "id", .duplicateInterval id⟩ := by
  unfold repeatedAt at h
  split at h
  · cases h
  · next id hid =>
    split at h
    · exact ⟨id, hid, List.mem_singleton.mp h⟩
    · cases h

/-- The same ids, in whatever order and number. -/
def SameIds (ids others : List String) : Prop := ∀ id, id ∈ ids ↔ id ∈ others

theorem SameIds.contains_eq {ids others : List String} (h : SameIds ids others) (id : String) :
    ids.contains id = others.contains id := by
  rw [Bool.eq_iff_iff, List.contains_iff_mem, List.contains_iff_mem, h id]

theorem SameIds.repeatedAt_eq {earlier others : List String} (h : SameIds earlier others)
    (place : Location) (entry : Json × Nat) :
    repeatedAt place earlier entry = repeatedAt place others entry := by
  simp only [repeatedAt, h.contains_eq]

theorem SameIds.repeatedIds_eq {seen others : List String} (h : SameIds seen others)
    (place : Location) (entries : List (Json × Nat)) :
    repeatedIds place seen entries = repeatedIds place others entries := by
  induction entries generalizing seen others with
  | nil => rfl
  | cons entry rest ih =>
    obtain ⟨item, position⟩ := entry
    unfold repeatedIds
    cases item.id? with
    | none => exact ih h
    | some id =>
      have hmore : SameIds (id :: seen) (id :: others) := fun other => by
        rw [List.mem_cons, List.mem_cons, h other]
      simp only [h.contains_eq, ih h, ih hmore]

theorem repeatedIds_cons (place : Location) (seen : List String) (entry : Json × Nat)
    (rest : List (Json × Nat)) :
    repeatedIds place seen (entry :: rest) =
      repeatedAt place seen entry ++ repeatedIds place (seen ++ entry.1.id?.toList) rest := by
  obtain ⟨item, position⟩ := entry
  rw [repeatedIds, repeatedAt]
  cases item.id? with
  | none => simp
  | some id =>
    have hadded : SameIds (id :: seen) (seen ++ [id]) := fun other => by
      rw [List.mem_cons, List.mem_append, List.mem_singleton, or_comm]
    by_cases hmem : id ∈ seen
    · -- An id that was seen already is not added again.
      have hknown : SameIds seen (seen ++ [id]) := fun other => by
        rw [List.mem_append, List.mem_singleton]
        exact ⟨.inl, fun h => h.elim (fun h => h) fun hsame => hsame ▸ hmem⟩
      simp [hmem, hknown.repeatedIds_eq]
    · simp [hmem, hadded.repeatedIds_eq]

theorem mem_repeatedIds {place : Location} {seen : List String} {entries : List (Json × Nat)}
    {f : Finding} (h : f ∈ repeatedIds place seen entries) :
    ∃ entry ∈ entries, ∃ id, entry.1.id? = some id ∧
      f = ⟨.key (.index place entry.2) "id", .duplicateInterval id⟩ := by
  induction entries generalizing seen with
  | nil => cases h
  | cons entry rest ih =>
    rw [repeatedIds_cons] at h
    rcases List.mem_append.mp h with h | h
    · exact ⟨entry, List.mem_cons_self .., mem_repeatedAt h⟩
    · obtain ⟨other, hother, hf⟩ := ih h
      exact ⟨other, List.mem_cons_of_mem _ hother, hf⟩

/-- The search for repeated ids asks each item for itself. -/
theorem repeatedIds_eq_flatMap (place : Location) (before items : List Json) :
    repeatedIds place (before.filterMap Json.id?) (items.zipIdx before.length) =
      (items.zipIdx before.length).flatMap fun entry =>
        repeatedAt place (((before ++ items).take entry.2).filterMap Json.id?) entry := by
  induction items generalizing before with
  | nil => rfl
  | cons item rest ih =>
    have hnext := ih (before ++ [item])
    rw [List.filterMap_append, List.length_append, List.append_assoc] at hnext
    have hids : [item].filterMap Json.id? = item.id?.toList := by
      cases hid : item.id? <;> simp [hid]
    rw [List.zipIdx_cons, List.flatMap_cons, List.take_left, repeatedIds_cons, ← hids]
    exact congrArg _ hnext

end EventPattern.Document
