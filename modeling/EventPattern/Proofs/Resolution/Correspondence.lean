import EventPattern.Iseql.Text
import EventPattern.Proofs.Json.Reordering
import EventPattern.Proofs.Related
import EventPattern.Proofs.Resolution.Layers
import EventPattern.Proofs.Review.Faults

/-! What resolving leaves as it was.

Resolving rewrites relations, puts payloads into the order of the ids and sorts; nothing gets
lost on the way and nothing is there twice (`Relation.keeps_resolve`, `Constraint.keeps_resolve`).
Relations and constraints need not have distinct ids, and what an id stands for is the first
thing that has it. Because sorting is stable, this is the same thing before and after, so a
constraint that is shown is the one that the review has judged (`resolution_faithful`). -/
namespace EventPattern

/-! ### Relations and constraints -/

/-- The resolved relation is the authored one under another operator and with other parameters. -/
structure Relation.Keeps (authored : Relation (Option AuthoredParams))
    (resolved : Relation TypedParams) : Prop where
  id : resolved.id = authored.id
  left : resolved.left = authored.left
  right : resolved.right = authored.right
  constraintIds : resolved.constraintIds = authored.constraintIds
  label : resolved.label = authored.label

/-- The resolved constraint is the authored one but for the order of things that carry an id. -/
structure Constraint.Keeps (authored resolved : Constraint) : Prop where
  id : resolved.id = authored.id
  kind : resolved.kind = authored.kind
  payload : Json.Fields.Reordered Json.MovesNamed authored.payload resolved.payload
  loose : Json.Fields.Reordered Json.MovesNamed authored.loose resolved.loose

theorem Relation.keeps_resolve (catalog : Catalog) (r : Relation (Option AuthoredParams)) :
    r.Keeps (r.resolve catalog) where
  id := rfl
  left := rfl
  right := rfl
  constraintIds := rfl
  label := rfl

theorem reordered_fieldsSortedById (fields : Json.Fields) :
    Json.Fields.Reordered Json.MovesNamed fields (fieldsSortedById fields) where
  keys := by
    rw [fieldsSortedById, List.map_map]
    rfl
  values := by
    rw [fieldsSortedById, List.map_map, List.forall₂_map_left_iff, List.forall₂_map_right_iff,
      List.forall₂_same]
    exact fun field _ => Json.reordered_sortById field.2

theorem Constraint.keeps_resolve (c : Constraint) : c.Keeps c.resolve where
  id := rfl
  kind := rfl
  payload := reordered_fieldsSortedById c.payload
  loose := reordered_fieldsSortedById c.loose

/-! ### The constraints that are shown -/

namespace Iseql

theorem mem_extras {m : ResolvedModel} {r : Relation TypedParams} {e : Extra}
    (h : e ∈ extras m r) : ∃ id ∈ r.constraintIds, m.constraint? id = some e.constraint := by
  have h := (sortBy_perm Extra.before _).mem_iff.mp h
  obtain ⟨id, hid, hextra⟩ := List.mem_filterMap.mp h
  obtain ⟨c, hc, hshown⟩ := Option.bind_eq_some_iff.mp hextra
  obtain ⟨_, -, rfl⟩ := Option.map_eq_some_iff.mp hshown
  exact ⟨id, List.mem_eraseDups.mp hid, hc⟩

variable (catalog : Catalog) (model : AuthoredModel) (r : Relation (Option AuthoredParams))

/-- The constraints between the brackets of a relation are those that its ids stand for in the
authored model. -/
theorem extras_resolve :
    extras (model.resolve catalog) (r.resolve catalog) =
      sortBy Extra.before (r.constraintIds.eraseDups.filterMap fun id =>
        (model.constraint? id).bind fun c => extra? c.resolve) := by
  unfold extras
  congr 1
  refine List.filterMap_congr fun id _ => ?_
  rw [model.constraint?_resolve, Option.bind_map]
  rfl

/-- The constraint that is shown is the one that the review has judged, under the same id. -/
def IsReviewed (c : Constraint) : Prop :=
  ∃ id ∈ r.constraintIds, ∃ authored, model.constraint? id = some authored ∧
    c = authored.resolve ∧ (Review.referenceRemark? model catalog r id = none ↔
      ∀ op, catalog.lookup? r.operator = some op → op.compatibility.supports c.kind = true)

theorem isReviewed_of_mem_extras {e : Extra}
    (h : e ∈ extras (model.resolve catalog) (r.resolve catalog)) :
    IsReviewed catalog model r e.constraint := by
  obtain ⟨id, hid, hfound⟩ := mem_extras h
  rw [model.constraint?_resolve] at hfound
  obtain ⟨c, hc, hresolved⟩ := Option.map_eq_some_iff.mp hfound
  refine ⟨id, hid, c, hc, hresolved.symm, ?_⟩
  rw [Review.referenceRemark?_eq_none, Review.IsSupported, ← hresolved]
  simp [hc, Constraint.resolve]

end Iseql

/-! ### Models -/

/-- The resolved model has what the authored one has, each thing once and under the same id. -/
structure AuthoredModel.Corresponds (catalog : Catalog) (model : AuthoredModel)
    (m : ResolvedModel) : Prop where
  intervals : m.intervals.Perm model.intervals
  relations : Shuffle (fun r resolved => resolved = r.resolve catalog ∧ r.Keeps resolved)
    model.relations m.relations
  constraints : Shuffle (fun c resolved => resolved = c.resolve ∧ c.Keeps resolved)
    model.constraints m.constraints

/-- All that carries an id is in the order of the ids. -/
structure ResolvedModel.Ascending (m : ResolvedModel) : Prop where
  intervals : m.intervals.Pairwise fun a b => a.id ≤ b.id
  relations : m.relations.Pairwise fun a b => a.id ≤ b.id
  constraints : m.constraints.Pairwise fun a b => a.id ≤ b.id

/-- The first thing of an id in the resolved model comes of the first one in the authored model. -/
structure AuthoredModel.KeepsFirst (catalog : Catalog) (model : AuthoredModel)
    (m : ResolvedModel) : Prop where
  intervals : ∀ id, m.intervals.find? (·.id == id) = model.intervals.find? (·.id == id)
  relations : ∀ id, m.relations.find? (·.id == id) =
    (model.relations.find? (·.id == id)).map (Relation.resolve catalog)
  constraints : ∀ id, m.constraints.find? (·.id == id) =
    (model.constraints.find? (·.id == id)).map Constraint.resolve

variable (catalog : Catalog) (model : AuthoredModel)

theorem AuthoredModel.corresponds_resolve :
    model.Corresponds catalog (model.resolve catalog) where
  intervals := model.intervals_resolve_perm catalog
  relations := by
    refine Shuffle.of_forall₂ ?_ (.refl _) (sortOn_perm Relation.id _).symm
    exact List.forall₂_map_right_iff.mpr
      (List.forall₂_same.mpr fun r _ => ⟨rfl, r.keeps_resolve catalog⟩)
  constraints := by
    refine Shuffle.of_forall₂ ?_ (.refl _) (sortOn_perm Constraint.id _).symm
    exact List.forall₂_map_right_iff.mpr
      (List.forall₂_same.mpr fun c _ => ⟨rfl, c.keeps_resolve⟩)

theorem AuthoredModel.ascending_resolve : (model.resolve catalog).Ascending where
  intervals := pairwise_sortOn Interval.id _
  relations := pairwise_sortOn Relation.id _
  constraints := pairwise_sortOn Constraint.id _

theorem AuthoredModel.keepsFirst_resolve : model.KeepsFirst catalog (model.resolve catalog) where
  intervals := model.find?_intervals_resolve catalog
  relations := model.find?_relations_resolve catalog
  constraints := model.find?_constraints_resolve catalog

/-- **Resolving loses, doubles and confuses nothing**, whatever ids are used twice. Intervals,
relations and constraints correspond one to one and come in the order of their ids. The first
thing of an id, which is what look-ups find, comes of the first one in the authored model. So the
constraints that a relation shows are those that its ids lead to in the authored model, and
these are the ones that the review has judged. -/
theorem resolution_faithful :
    model.Corresponds catalog (model.resolve catalog) ∧ (model.resolve catalog).Ascending ∧
      model.KeepsFirst catalog (model.resolve catalog) ∧
      (∀ id, (model.resolve catalog).interval? id = model.interval? id) ∧
      (∀ id, (model.resolve catalog).relation? id =
        (model.relation? id).map (Relation.resolve catalog)) ∧
      (∀ id, (model.resolve catalog).constraint? id =
        (model.constraint? id).map Constraint.resolve) ∧
      ∀ r : Relation (Option AuthoredParams),
        Iseql.extras (model.resolve catalog) (r.resolve catalog) =
          sortBy Iseql.Extra.before (r.constraintIds.eraseDups.filterMap fun id =>
            (model.constraint? id).bind fun c => Iseql.extra? c.resolve) ∧
        ∀ e ∈ Iseql.extras (model.resolve catalog) (r.resolve catalog),
          Iseql.IsReviewed catalog model r e.constraint :=
  ⟨model.corresponds_resolve catalog, model.ascending_resolve catalog,
    model.keepsFirst_resolve catalog, model.interval?_resolve catalog,
    model.relation?_resolve catalog, model.constraint?_resolve catalog, fun r => ⟨Iseql.extras_resolve catalog model r,
      fun _ he => Iseql.isReviewed_of_mem_extras catalog model r he⟩⟩

/-- A model with two intervals, two relations and two constraints of one id. -/
def twinModel : AuthoredModel :=
  let interval (id : String) (start stop : Tick) : Interval :=
    { id, start, stop, predicate := { name := "p" } }
  let relation (left : String) : Relation (Option AuthoredParams) :=
    { id := "r", left, right := "x", operator := "Bef", params := none, constraintIds := ["k"] }
  let counted (id : String) (value : UInt64) : Constraint :=
    { id, kind := .cardinality, payload := [("value", .number (.ofUInt64 value))] }
  { schemaVersion := "0", id := ""
    intervals := [interval "y" 0 1, interval "x" 5 9, interval "x" 2 3]
    relations := [relation "y", relation "x"]
    constraints := [counted "k" 2, counted "j" 3, counted "k" 1] }

/-- Each id stands for the first of the two, and the relation shows the first of its two
constraints, which is the one that was judged. -/
theorem twinModel_shows_first :
    ((twinModel.resolve .embedded).intervals.find? (·.id == "x")).map (·.start) = some 5 ∧
      ((twinModel.resolve .embedded).relations.find? (·.id == "r")).map (·.left) = some "y" ∧
      (((twinModel.resolve .embedded).constraints.find? (·.id == "k")).bind Iseql.extra?).map
        Iseql.Extra.text = some "cardinality=2" ∧
      ∃ r ∈ twinModel.relations,
        ∃ e ∈ Iseql.extras (twinModel.resolve .embedded) (r.resolve .embedded),
          e.text = "cardinality=2" ∧ Iseql.IsReviewed .embedded twinModel r e.constraint := by
  obtain ⟨-, -, hfirst, -, -, -, hshows⟩ := resolution_faithful .embedded twinModel
  refine ⟨?_, ?_, ?_, ?_⟩
  · rw [hfirst.intervals]
    rfl
  · rw [hfirst.relations]
    rfl
  · rw [hfirst.constraints]
    decide +kernel
  · obtain ⟨r, hr⟩ : ∃ r, twinModel.relation? "r" = some r :=
      Option.isSome_iff_exists.mp (by decide +kernel)
    have htexts : ∀ r ∈ twinModel.relation? "r",
        (Iseql.extras (twinModel.resolve .embedded) (r.resolve .embedded)).map Iseql.Extra.text =
          ["cardinality=2"] := by
      decide +kernel
    have hshown := (htexts r hr).symm ▸ List.mem_singleton_self "cardinality=2"
    obtain ⟨e, he, htext⟩ := List.mem_map.mp hshown
    exact ⟨r, List.mem_of_find?_eq_some hr, e, he, htext, (hshows r).2 e he⟩

end EventPattern
