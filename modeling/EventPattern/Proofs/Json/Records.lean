import EventPattern.Json.Basic

/-! The fields of records.

A record leaves out its absent fields. Looking a key up in it (`get?_present_cons`) and
going through its fields (`mem_present`) see the declared fields instead, so nothing that
reads a record depends on which of them are there. -/
namespace EventPattern.Json.Fields

/-- The fields of a record that are there. -/
def present (declared : List (String × Option Json)) : Fields :=
  declared.filterMap fun field => field.2.map (field.1, ·)

theorem record_eq (declared : List (String × Option Json)) :
    record declared = .object (present declared) := rfl

theorem present_append (declared others : List (String × Option Json)) :
    present (declared ++ others) = present declared ++ present others :=
  List.filterMap_append

theorem mem_present {declared : List (String × Option Json)} {field : String × Json} :
    field ∈ present declared ↔ (field.1, some field.2) ∈ declared := by
  simp only [present, List.mem_filterMap, Option.map_eq_some_iff]
  constructor
  · intro h
    obtain ⟨⟨key, value⟩, hmem, json, hvalue, rfl⟩ := h
    rw [← hvalue]
    exact hmem
  · intro h
    exact ⟨_, h, field.2, rfl, rfl⟩

theorem key_mem_of_mem_present {declared : List (String × Option Json)} {field : String × Json}
    (h : field ∈ present declared) : field.1 ∈ declared.map (·.1) :=
  List.mem_map.mpr ⟨_, mem_present.mp h, rfl⟩

@[simp] theorem get?_nil (key : String) : get? [] key = none := rfl

@[simp] theorem get?_present_nil (key : String) : get? (present []) key = none := rfl

/-- The first declared field of a key counts, unless it is absent. -/
@[simp] theorem get?_present_cons (key : String) (value : Option Json)
    (rest : List (String × Option Json)) (other : String) :
    get? (present ((key, value) :: rest)) other =
      if key = other then value.or (get? (present rest) other) else get? (present rest) other := by
  cases value with
  | none =>
    show get? (present rest) other = _
    simp
  | some json =>
    show get? ((key, json) :: present rest) other = _
    simp

theorem mem_of_get? {fields : Fields} {key : String} {value : Json}
    (h : get? fields key = some value) : (key, value) ∈ fields := by
  induction fields with
  | nil => cases h
  | cons field rest ih =>
    rw [get?_cons] at h
    split at h
    · next hkey =>
      cases h
      rw [← hkey]
      exact List.mem_cons_self ..
    · exact List.mem_cons_of_mem _ (ih h)

end EventPattern.Json.Fields
