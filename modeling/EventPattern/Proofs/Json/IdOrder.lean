import EventPattern.Json.IdOrder
import EventPattern.Proofs.Json.Records
import EventPattern.Proofs.Sorting

/-! Putting into the order of the ids what already is.

Ordering a value does not touch the ids by which it is itself ordered, nor any field but
inside, so doing it twice does nothing more (`sortById_sortById`). The induction follows the
three functions of `sortById`: a value, the items of an array, the fields of an object. -/
namespace EventPattern.Json

/-! ### What ordering keeps -/

theorem sortItemsById_eq_map (items : List Json) : sortItemsById items = items.map sortById := by
  induction items with
  | nil => rfl
  | cons item rest ih => rw [sortItemsById, ih, List.map_cons]

theorem get?_sortFieldsById (fields : Fields) (key : String) :
    Fields.get? (sortFieldsById fields) key = (fields.get? key).map sortById := by
  induction fields with
  | nil => rfl
  | cons field rest ih =>
    rw [sortFieldsById, Fields.get?_cons, Fields.get?_cons, ih]
    split <;> rfl

theorem string?_sortById (json : Json) : json.sortById.string? = json.string? := by
  cases json <;> rfl

theorem id?_sortById (json : Json) : json.sortById.id? = json.id? := by
  cases json with
  | object fields =>
    show (Fields.get? (sortFieldsById fields) "id").bind string? =
      (Fields.get? fields "id").bind string?
    rw [get?_sortFieldsById]
    cases Fields.get? fields "id" with
    | none => rfl
    | some value => exact string?_sortById value
  | _ => rfl

theorem orderItems_perm (items : List Json) : (orderItems items).Perm items := by
  unfold orderItems
  split
  · exact sortOn_perm _ items
  · exact .refl _

theorem orderItems_orderItems (items : List Json) :
    orderItems (orderItems items) = orderItems items := by
  have hall : (orderItems items).all (fun item => item.id?.isSome) =
      items.all fun item => item.id?.isSome :=
    Bool.eq_iff_iff.mpr (by
      rw [List.all_eq_true, List.all_eq_true]
      exact forall_congr' fun item => imp_congr_left (orderItems_perm items).mem_iff)
  rw [orderItems, hall]
  unfold orderItems
  split
  · rw [sortOn_sortOn]
  · rfl

/-! ### Twice is once -/

mutual

theorem sortById_sortById (json : Json) : json.sortById.sortById = json.sortById := by
  cases json with
  | array items =>
    have hitems : (sortItemsById items).map sortById = (sortItemsById items).map id := by
      rw [List.map_id, ← sortItemsById_eq_map, sortItemsById_sortItemsById items]
    have hfixed : ∀ item ∈ orderItems (sortItemsById items), item.sortById = item := by
      intro item hitem
      have hmem := (orderItems_perm _).mem_iff.mp hitem
      exact List.map_inj_left.mp hitems item hmem
    rw [sortById, sortById, sortItemsById_eq_map (orderItems _), List.map_congr_left hfixed,
      List.map_id', orderItems_orderItems]
  | object fields => rw [sortById, sortById, sortFieldsById_sortFieldsById fields]
  | _ => rfl

theorem sortItemsById_sortItemsById (items : List Json) :
    sortItemsById (sortItemsById items) = sortItemsById items := by
  cases items with
  | nil => rfl
  | cons item rest =>
    rw [sortItemsById, sortItemsById, sortById_sortById item, sortItemsById_sortItemsById rest]

theorem sortFieldsById_sortFieldsById (fields : List (String × Json)) :
    sortFieldsById (sortFieldsById fields) = sortFieldsById fields := by
  cases fields with
  | nil => rfl
  | cons field rest =>
    obtain ⟨key, value⟩ := field
    rw [sortFieldsById, sortFieldsById, sortById_sortById value,
      sortFieldsById_sortFieldsById rest]

end

end EventPattern.Json
