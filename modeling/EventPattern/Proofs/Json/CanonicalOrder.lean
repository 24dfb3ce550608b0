import EventPattern.Proofs.Json.Reordering
import EventPattern.Proofs.Related

/-! The order of the ids as a canonical form.

Ordering a value moves the items of an array if all of them carry an id, into ascending order and
without one item of an id passing another (`SortsNamed`). It goes by the ids alone, which ordering
an item from within does not touch. So as long as the ids of an array tell its items apart, values
that are reordered into one another come to the same when they are ordered
(`sortById_canonical`). -/
namespace EventPattern.Json

/-- Things that all carry an id are put into ascending order of the ids, those of one id staying in
the order they had; every other array stays as it is. -/
inductive SortsNamed (items : List Json) : List Json → Prop where
  | stays (mixed : ∃ item ∈ items, item.id? = none) : SortsNamed items items
  | sorted {others : List Json} (named : ∀ item ∈ items, item.id?.isSome)
    (perm : items.Perm others)
    (ascending : others.Pairwise fun a b => ∀ id ∈ a.id?, ∀ id' ∈ b.id?, id ≤ id')
    (stable : ∀ id, others.filter (·.id? = some id) = items.filter (·.id? = some id)) :
    SortsNamed items others

/-- Things that all carry an id of their own are moved, and every other array stays as it is. -/
inductive MovesDistinct (items : List Json) : List Json → Prop where
  | stays : MovesDistinct items items
  | moved {others : List Json} (named : ∀ item ∈ items, item.id?.isSome)
    (distinct : (items.map id?).Nodup) (perm : items.Perm others) : MovesDistinct items others

/-! ### One array -/

section Array
variable {items others : List Json}

theorem eq_some_getD {item : Json} (h : item.id?.isSome) : item.id? = some (item.id?.getD "") := by
  obtain ⟨id, hid⟩ := Option.isSome_iff_exists.mp h
  rw [hid, Option.getD_some]

theorem orderItems_of_named (h : ∀ item ∈ items, item.id?.isSome) :
    orderItems items = sortOn (fun item => item.id?.getD "") items :=
  if_pos (List.all_eq_true.mpr h)

theorem sortsNamed_orderItems (items : List Json) : SortsNamed items (orderItems items) := by
  by_cases hnamed : ∀ item ∈ items, item.id?.isSome
  · have hperm := sortOn_perm (fun item : Json => item.id?.getD "") items
    have hid {item : Json} (hitem : item ∈ items) (id : String) :
        decide (item.id? = some id) = decide (item.id?.getD "" = id) := by
      rw [eq_some_getD (hnamed item hitem), Option.getD_some]
      simp
    rw [orderItems_of_named hnamed]
    refine .sorted hnamed hperm.symm ?_ fun id => ?_
    · refine (pairwise_sortOn _ items).imp fun hle id hid id' hid' => ?_
      rw [Option.mem_def] at hid hid'
      rwa [hid, hid'] at hle
    · rw [List.filter_congr fun item hitem => hid ((mem_sortOn _).mp hitem) id,
        List.filter_congr fun item hitem => hid hitem id]
      exact filter_sortOn _ id items
  · have hmixed : ∃ item ∈ items, item.id? = none := by
      simpa using hnamed
    have hstays : orderItems items = items := if_neg (mt List.all_eq_true.mp hnamed)
    rw [hstays]
    exact .stays hmixed

/-- Ordering goes by the ids alone. -/
theorem orderItems_map_sortById (items : List Json) :
    orderItems (items.map sortById) = (orderItems items).map sortById := by
  have hall : (items.map sortById).all (fun item => item.id?.isSome) =
      items.all fun item => item.id?.isSome := by
    simp only [List.all_map, Function.comp_def, id?_sortById]
  rw [orderItems, hall, orderItems]
  split
  · exact sortOn_map _ _ sortById (fun item => by rw [id?_sortById]) items
  · rfl

/-- Items that their ids tell apart come into one order. -/
theorem orderItems_of_movesDistinct (h : MovesDistinct items others) :
    orderItems items = orderItems others := by
  cases h with
  | stays => rfl
  | moved named distinct perm =>
    rw [orderItems_of_named named,
      orderItems_of_named fun item hitem => named item (perm.mem_iff.mpr hitem)]
    refine sortOn_eq_of_perm_of_inj _ (fun a ha b hb hkey => ?_) perm
    refine List.inj_on_of_nodup_map distinct ha hb ?_
    rw [eq_some_getD (named a ha), eq_some_getD (named b hb), hkey]

end Array

/-! ### Values that are reordered -/

mutual

/-- **The order that things with ids come in does not show.** -/
theorem sortById_of_reordered {json other : Json} (h : Reordered MovesDistinct json other) :
    json.sortById = other.sortById := by
  cases json with
  | array items =>
    cases h with
    | array inner outer =>
      rw [sortById, sortById, sortItemsById_of_reordered inner, sortItemsById_eq_map,
        sortItemsById_eq_map, orderItems_map_sortById, orderItems_map_sortById,
        orderItems_of_movesDistinct outer]
  | object fields =>
    cases h with
    | object keys values => rw [sortById, sortById, sortFieldsById_of_reordered keys values]
  | _ =>
    cases h
    rfl

theorem sortItemsById_of_reordered {items others : List Json}
    (h : List.Forall₂ (Reordered MovesDistinct) items others) :
    sortItemsById items = sortItemsById others := by
  cases items with
  | nil =>
    cases h
    rfl
  | cons item rest =>
    cases h with
    | cons hitem hrest =>
      rw [sortItemsById, sortItemsById, sortById_of_reordered hitem,
        sortItemsById_of_reordered hrest]

theorem sortFieldsById_of_reordered {fields others : List (String × Json)}
    (hkeys : fields.map Prod.fst = others.map Prod.fst)
    (hvalues : List.Forall₂ (Reordered MovesDistinct) (fields.map Prod.snd)
      (others.map Prod.snd)) :
    sortFieldsById fields = sortFieldsById others := by
  cases fields with
  | nil =>
    rw [List.map_nil, eq_comm, List.map_eq_nil_iff] at hkeys
    rw [hkeys]
  | cons field rest =>
    cases others with
    | nil => cases hkeys
    | cons other more =>
      rw [List.map_cons, List.map_cons, List.cons.injEq] at hkeys
      rw [List.map_cons, List.map_cons, List.forall₂_cons] at hvalues
      rw [sortFieldsById, sortFieldsById, hkeys.1, sortById_of_reordered hvalues.1,
        sortFieldsById_of_reordered hkeys.2 hvalues.2]

end

/-- **Ordering by ids gives a canonical form.** Doing it twice is doing it once. Nothing is changed
but the order of arrays whose items all carry an id, at whatever depth, and these come into
ascending order with items of one id as they were. And values that differ by nothing but the order
of such arrays, with no id twice in any of those that are moved, come to the same value. -/
theorem sortById_canonical (json : Json) :
    json.sortById.sortById = json.sortById ∧ Reordered SortsNamed json json.sortById ∧
      ∀ other, Reordered MovesDistinct json other → other.sortById = json.sortById :=
  ⟨sortById_sortById json, reordered_sortById_of sortsNamed_orderItems json,
    fun _ h => (sortById_of_reordered h).symm⟩

def namedItems (id : String) (items : List Json) : Json :=
  .object [("id", .string id), ("items", .array items)]

/-- A mixed array around named things, the first of which has named things within. -/
def scattered : Json :=
  .array [.null, .array [namedItems "b" [namedItems "2" [], namedItems "1" []], namedItems "a" []]]

def gathered : Json :=
  .array [.null, .array [namedItems "a" [], namedItems "b" [namedItems "1" [], namedItems "2" []]]]

theorem scattered_gathered :
    Reordered MovesDistinct scattered gathered ∧ gathered.sortById = scattered.sortById ∧
      gathered.sortById = gathered := by
  have hempty (id : String) : Reordered MovesDistinct (namedItems id []) (namedItems id []) :=
    .object rfl (.cons (.string id) (.cons (.array .nil .stays) .nil))
  have hinner : Reordered MovesDistinct (namedItems "b" [namedItems "2" [], namedItems "1" []])
      (namedItems "b" [namedItems "1" [], namedItems "2" []]) := by
    refine .object rfl (.cons (.string "b") (.cons (.array (.cons (hempty "2")
      (.cons (hempty "1") .nil)) (.moved ?_ ?_ (.swap ..))) .nil))
    · decide
    · decide
  have hreordered : Reordered MovesDistinct scattered gathered := by
    refine .array (.cons .null (.cons (.array (.cons hinner (.cons (hempty "a") .nil))
      (.moved ?_ ?_ (.swap ..))) .nil)) .stays
    · decide
    · decide
  exact ⟨hreordered, (sortById_canonical scattered).2.2 gathered hreordered, rfl⟩

end EventPattern.Json
