import EventPattern.Json.Reading
import EventPattern.Proofs.Json.Records

/-! Objects with each key once.

The fields of an object are a list, which could have a key twice. In a value that is read from
text no object does, at any depth (`keysOnce_of_ofText?`): of a repeated key only the last entry
is kept. -/
namespace EventPattern.Json

mutual

/-- Every object, at every depth, has each of its keys once. -/
def keysOnce : Json → Bool
  | .array items => itemsKeysOnce items
  | .object fields => decide (fields.map (·.1)).Nodup && fieldsKeysOnce fields
  | _ => true

def itemsKeysOnce : List Json → Bool
  | [] => true
  | item :: rest => keysOnce item && itemsKeysOnce rest

def fieldsKeysOnce : List (String × Json) → Bool
  | [] => true
  | (_, value) :: rest => keysOnce value && fieldsKeysOnce rest

end

theorem itemsKeysOnce_iff (items : List Json) :
    itemsKeysOnce items = true ↔ ∀ item ∈ items, item.keysOnce = true := by
  induction items with
  | nil => simp [itemsKeysOnce]
  | cons item rest ih => rw [itemsKeysOnce, Bool.and_eq_true, ih, List.forall_mem_cons]

theorem fieldsKeysOnce_iff (fields : List (String × Json)) :
    fieldsKeysOnce fields = true ↔ ∀ field ∈ fields, field.2.keysOnce = true := by
  induction fields with
  | nil => simp [fieldsKeysOnce]
  | cons field rest ih => rw [fieldsKeysOnce, Bool.and_eq_true, ih, List.forall_mem_cons]

theorem keysOnce_array (items : List Json) :
    (array items).keysOnce = true ↔ ∀ item ∈ items, item.keysOnce = true :=
  itemsKeysOnce_iff items

theorem keysOnce_object (fields : Fields) :
    (object fields).keysOnce = true ↔
      (fields.map (·.1)).Nodup ∧ ∀ field ∈ fields, field.2.keysOnce = true := by
  rw [keysOnce, Bool.and_eq_true, decide_eq_true_iff, fieldsKeysOnce_iff]

theorem keysOnce_of_get? {fields : Fields} (h : (object fields).keysOnce = true) {key : String}
    {value : Json} (hget : fields.get? key = some value) : value.keysOnce = true :=
  ((keysOnce_object fields).mp h).2 _ (Fields.mem_of_get? hget)

/-! ### Reading -/

namespace Fields

/-- The keys are in strictly ascending order. -/
def Ascending (fields : Fields) : Prop := fields.Pairwise fun a b => a.1 < b.1

theorem Ascending.nodup {fields : Fields} (h : fields.Ascending) : (fields.map (·.1)).Nodup :=
  List.pairwise_map.mpr (h.imp fun hlt => Std.ne_of_lt hlt)

theorem mem_insert {key : String} {value : Json} {fields : Fields} {field : String × Json}
    (h : field ∈ fields.insert key value) : field = (key, value) ∨ field ∈ fields := by
  induction fields with
  | nil => exact .inl (List.mem_singleton.mp h)
  | cons first rest ih =>
    rw [insert] at h
    split at h
    · rcases List.mem_cons.mp h with hnew | hrest
      · exact .inl hnew
      · exact .inr (List.mem_cons_of_mem _ hrest)
    · split at h
      · exact List.mem_cons.mp h
      · rcases List.mem_cons.mp h with hfirst | hrest
        · exact .inr (hfirst ▸ List.mem_cons_self ..)
        · exact (ih hrest).imp_right (List.mem_cons_of_mem _)

theorem Ascending.insert {fields : Fields} (h : fields.Ascending) (key : String) (value : Json) :
    (fields.insert key value).Ascending := by
  induction h with
  | nil => exact List.pairwise_singleton _ _
  | @cons first rest hfirst hrest ih =>
    rw [Fields.insert]
    split
    · next hsame => exact hrest.cons fun other hother => hsame ▸ hfirst other hother
    · next hne =>
      split
      · next hlt =>
        refine (hrest.cons hfirst).cons fun other hother => ?_
        rcases List.mem_cons.mp hother with rfl | hother
        · exact hlt
        · exact String.lt_trans hlt (hfirst other hother)
      · next hnot =>
        refine ih.cons fun other hother => ?_
        rcases mem_insert hother with rfl | hother
        · exact Std.lt_of_le_of_ne (String.not_lt.mp hnot) (Ne.symm hne)
        · exact hfirst other hother

/-- What is put together of entries has the keys in order, and only values of the entries. -/
theorem ofEntries_spec (entries : List (String × Json)) :
    (ofEntries entries).Ascending ∧ ∀ field ∈ ofEntries entries, field ∈ entries := by
  suffices h : ∀ fields : Fields, fields.Ascending →
      (entries.foldl (fun fields entry => fields.insert entry.1 entry.2) fields).Ascending ∧
        ∀ field ∈ entries.foldl (fun fields entry => fields.insert entry.1 entry.2) fields,
          field ∈ fields ∨ field ∈ entries by
    obtain ⟨hascending, hmem⟩ := h [] .nil
    exact ⟨hascending, fun field hfield => (hmem field hfield).resolve_left (List.not_mem_nil)⟩
  induction entries with
  | nil => exact fun fields h => ⟨h, fun field hfield => .inl hfield⟩
  | cons entry rest ih =>
    intro fields h
    obtain ⟨hascending, hmem⟩ := ih _ (h.insert entry.1 entry.2)
    refine ⟨hascending, fun field hfield => ?_⟩
    rcases hmem field hfield with hinsert | hrest
    · rcases mem_insert hinsert with rfl | hold
      · exact .inr (List.mem_cons_self ..)
      · exact .inl hold
    · exact .inr (List.mem_cons_of_mem _ hrest)

end Fields

namespace Tree

mutual

theorem keysOnce_of_value? {depth : Nat} {tree : Tree} {json : Json}
    (h : tree.value? depth = some json) : json.keysOnce = true := by
  cases tree with
  | null =>
    cases h
    rfl
  | bool b =>
    cases h
    rfl
  | number lexeme =>
    obtain ⟨n, -, rfl⟩ := Option.map_eq_some_iff.mp h
    rfl
  | string raw =>
    obtain ⟨text, -, rfl⟩ := Option.map_eq_some_iff.mp h
    rfl
  | array items =>
    rw [value?] at h
    split at h
    · cases h
    · obtain ⟨values, hvalues, rfl⟩ := Option.map_eq_some_iff.mp h
      exact (keysOnce_array values).mpr (keysOnce_of_values? hvalues)
  | object entries =>
    rw [value?] at h
    split at h
    · cases h
    · obtain ⟨values, hvalues, rfl⟩ := Option.map_eq_some_iff.mp h
      obtain ⟨hascending, hmem⟩ := Fields.ofEntries_spec values
      exact (keysOnce_object _).mpr ⟨hascending.nodup, fun field hfield =>
        keysOnce_of_entryValues? hvalues field (hmem field hfield)⟩

theorem keysOnce_of_values? {depth : Nat} {items : List Tree} {values : List Json}
    (h : values? depth items = some values) : ∀ value ∈ values, value.keysOnce = true := by
  cases items with
  | nil =>
    cases h
    exact nofun
  | cons item rest =>
    obtain ⟨value, hvalue, others, hothers, rfl⟩ : ∃ value, item.value? depth = some value ∧
        ∃ others, values? depth rest = some others ∧ value :: others = values := by
      simpa [values?, Option.bind_eq_some_iff] using h
    exact List.forall_mem_cons.mpr ⟨keysOnce_of_value? hvalue, keysOnce_of_values? hothers⟩

theorem keysOnce_of_entryValues? {depth : Nat} {entries : List (List Char × Tree)}
    {values : List (String × Json)} (h : entryValues? depth entries = some values) :
    ∀ field ∈ values, field.2.keysOnce = true := by
  cases entries with
  | nil =>
    cases h
    exact nofun
  | cons entry rest =>
    obtain ⟨raw, item⟩ := entry
    obtain ⟨key, -, value, hvalue, others, hothers, rfl⟩ : ∃ key, stringOfRaw? raw = some key ∧
        ∃ value, item.value? depth = some value ∧ ∃ others, entryValues? depth rest = some others ∧
          (key, value) :: others = values := by
      simpa [entryValues?, Option.bind_eq_some_iff] using h
    exact List.forall_mem_cons.mpr ⟨keysOnce_of_value? hvalue, keysOnce_of_entryValues? hothers⟩

end

end Tree

/-- **What is read from text has each key once.** -/
theorem keysOnce_of_ofText? {text : String} {json : Json} (h : ofText? text = some json) :
    json.keysOnce = true := by
  obtain ⟨tree, -, hvalue⟩ := Option.bind_eq_some_iff.mp h
  exact Tree.keysOnce_of_value? hvalue

end EventPattern.Json
