import EventPattern.Proofs.Json.IdOrder

/-! Values that differ in the order of arrays only.

`Reordered` relates a value to one in which some arrays are in another order, at whatever depth;
which arrays these are, and how they may change, is a parameter. Putting a value into the order
of the ids is of this kind, and the only arrays it touches are those whose items all carry an id
(`reordered_sortById`). -/
namespace EventPattern.Json

/-- The other value is this one with arrays in another order: their items are reordered first,
and then moved. -/
inductive Reordered (moves : List Json → List Json → Prop) : Json → Json → Prop where
  | null : Reordered moves .null .null
  | bool (value : Bool) : Reordered moves (.bool value) (.bool value)
  | number (value : Number) : Reordered moves (.number value) (.number value)
  | string (value : String) : Reordered moves (.string value) (.string value)
  | array {items middle others : List Json} (inner : List.Forall₂ (Reordered moves) items middle)
    (outer : moves middle others) : Reordered moves (.array items) (.array others)
  | object {fields others : Fields} (keys : fields.map Prod.fst = others.map Prod.fst)
    (values : List.Forall₂ (Reordered moves) (fields.map Prod.snd) (others.map Prod.snd)) :
    Reordered moves (.object fields) (.object others)

/-- The same keys, and values that are reordered. -/
structure Fields.Reordered (moves : List Json → List Json → Prop) (fields others : Fields) :
    Prop where
  keys : fields.map Prod.fst = others.map Prod.fst
  values : List.Forall₂ (Json.Reordered moves) (fields.map Prod.snd) (others.map Prod.snd)

/-- Things that all carry an id are moved, and every other array stays as it is. -/
inductive MovesNamed (items : List Json) : List Json → Prop where
  | stays : MovesNamed items items
  | moved {others : List Json} (named : ∀ item ∈ items, item.id?.isSome)
    (perm : items.Perm others) : MovesNamed items others

theorem movesNamed_orderItems (items : List Json) : MovesNamed items (orderItems items) := by
  unfold orderItems
  split
  · next hnamed => exact .moved (List.all_eq_true.mp hnamed) (sortOn_perm _ items).symm
  · exact .stays

theorem keys_sortFieldsById (fields : Fields) :
    (sortFieldsById fields).map Prod.fst = fields.map Prod.fst := by
  induction fields with
  | nil => rfl
  | cons field rest ih => rw [sortFieldsById, List.map_cons, List.map_cons, ih]

section Ordering
variable {moves : List Json → List Json → Prop}

mutual

/-- Ordering a value does to its arrays, from the inside out, what `orderItems` does to one. -/
theorem reordered_sortById_of (h : ∀ items : List Json, moves items (orderItems items))
    (json : Json) : Reordered moves json json.sortById := by
  cases json with
  | null => exact .null
  | bool value => exact .bool value
  | number value => exact .number value
  | string value => exact .string value
  | array items => exact .array (reordered_sortItemsById h items) (h _)
  | object fields =>
    exact .object (keys_sortFieldsById fields).symm (reordered_sortFieldsById h fields)

theorem reordered_sortItemsById (h : ∀ items : List Json, moves items (orderItems items))
    (items : List Json) : List.Forall₂ (Reordered moves) items (sortItemsById items) := by
  cases items with
  | nil => exact .nil
  | cons item rest =>
    exact .cons (reordered_sortById_of h item) (reordered_sortItemsById h rest)

theorem reordered_sortFieldsById (h : ∀ items : List Json, moves items (orderItems items))
    (fields : List (String × Json)) :
    List.Forall₂ (Reordered moves) (fields.map Prod.snd)
      ((sortFieldsById fields).map Prod.snd) := by
  cases fields with
  | nil => exact .nil
  | cons field rest =>
    exact .cons (reordered_sortById_of h field.2) (reordered_sortFieldsById h rest)

end

end Ordering

/-- **Ordering a value moves nothing but things that carry an id.** -/
theorem reordered_sortById (json : Json) : Reordered MovesNamed json json.sortById :=
  reordered_sortById_of movesNamed_orderItems json

end EventPattern.Json
