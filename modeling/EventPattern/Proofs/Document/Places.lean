import EventPattern.Proofs.Document.Proper
import EventPattern.Proofs.Related

/-! Where the relations of a document are written.

`Json.at?` is what stands at a location of a document. The two shapes keep their relations in
different places and under different names, which is what an origin says; seen through it, both
write the same thing, so the relation at a position of the model is the one that stands at its
location in the document (`IsDocument.relation_at`). -/
namespace EventPattern

namespace Json

/-- The value at a location, when the way there exists. -/
def at? (json : Json) : Location → Option Json
  | .root => some json
  | .key parent name => (json.at? parent).bind (·.get? name)
  | .index parent position => ((json.at? parent).bind array?).bind (·[position]?)

/-- The items of the array at a location, none when there is no array. -/
def itemsAt (json : Json) (place : Location) : List Json :=
  ((json.at? place).bind array?).getD []

theorem at?_index (json : Json) (place : Location) (position : Nat) :
    json.at? (.index place position) = (json.itemsAt place)[position]? := by
  rw [at?, itemsAt]
  cases (json.at? place).bind array? <;> rfl

@[simp] theorem get?_object (fields : Fields) (key : String) :
    (Json.object fields).get? key = fields.get? key := rfl

theorem at?_key {json value : Json} {place : Location} (hplace : json.at? place = some value)
    (name : String) : json.at? (.key place name) = value.get? name := by
  rw [at?, hplace, Option.bind_some]

theorem at?_key_root (fields : Fields) (name : String) :
    (Json.object fields).at? (.key .root name) = fields.get? name := rfl

end Json

namespace Document

open Json (Fields)

variable {α : Type}

/-- A list that may be left out holds what its items are read as. -/
theorem HasFieldOr.items {fields : Fields} {key : String} {shape : Shape α} {values : List α}
    (h : HasFieldOr fields key [] (IsList shape) values) :
    List.Forall₂ shape (((fields.get? key).bind Json.array?).getD []) values := by
  rcases h with ⟨hnone, rfl⟩ | ⟨_, hget, items, rfl, hitems⟩
  · rw [hnone]
    exact .nil
  · rw [hget]
    exact hitems

/-- The fields of a relation, under the names that an origin gives them. -/
structure RelationFields (origin : Origin) (ids : List String) (fields : Fields)
    (r : Relation (Option AuthoredParams)) : Prop where
  id : HasField fields "id" IsNonEmpty r.id
  left : HasField fields origin.leftKey (IsEndpoint ids) r.left
  right : HasField fields origin.rightKey (IsEndpoint ids) r.right
  operator : HasField fields origin.operatorKey IsNonEmpty r.operator
  params : HasFieldOr fields "params" none IsParams r.params
  constraintIds : HasFieldOr fields "constraintIds" [] (IsList IsNonEmpty) r.constraintIds

/-- A relation as it is written, in the shape that an origin belongs to. -/
def IsRelation (origin : Origin) (ids : List String) : Shape (Relation (Option AuthoredParams)) :=
  fun json r => ∃ fields, json = .object fields ∧ RelationFields origin ids fields r

theorem IsLegacyRelation.isRelation {d : LegacyDocument} {ids : List String} {json : Json}
    {r : LegacyRelation} (h : IsLegacyRelation ids json r) :
    IsRelation (Document.legacy d).origin ids json r.relation := by
  obtain ⟨fields, rfl, -, hfields⟩ := h
  exact ⟨fields, rfl, hfields.id, hfields.left, hfields.right, hfields.operator, hfields.params,
    hfields.constraintIds⟩

theorem IsCanonicalRelation.isRelation {d : CanonicalDocument} {ids : List String} {json : Json}
    {r : Relation (Option AuthoredParams)} (h : IsCanonicalRelation ids json r) :
    IsRelation (Document.canonical d).origin ids json r := by
  obtain ⟨fields, rfl, -, hfields⟩ := h
  exact ⟨fields, rfl, hfields.id, hfields.left, hfields.right, hfields.operator, hfields.params,
    hfields.constraintIds⟩

theorem LegacyFields.temporalItems {fields : Fields} {d : LegacyDocument}
    (h : LegacyFields fields d) :
    List.Forall₂ (IsLegacyRelation (d.intervals.map (·.id)))
      ((Json.object fields).itemsAt (Document.legacy d).origin.relations) d.relations := by
  show List.Forall₂ _ (((((Json.object fields).at? (.key .root "constraints")).bind
    (·.get? "temporal")).bind Json.array?).getD []) _
  rw [Json.at?_key_root]
  rcases h.constraints with ⟨hnone, hempty⟩ | ⟨_, hget, inner, rfl, -, hrelations, -⟩
  · obtain ⟨hrelations, -⟩ := Prod.mk.inj hempty
    rw [hnone, hrelations]
    exact .nil
  · rw [hget]
    exact hrelations.items

theorem LegacyFields.relationItems {fields : Fields} {d : LegacyDocument}
    (h : LegacyFields fields d) :
    List.Forall₂ (IsRelation (Document.legacy d).origin (d.intervals.map (·.id)))
      ((Json.object fields).itemsAt (Document.legacy d).origin.relations) d.model.relations :=
  List.forall₂_map_right_iff.mpr (h.temporalItems.imp fun _ _ => IsLegacyRelation.isRelation)

theorem CanonicalFields.relationItems {fields : Fields} {d : CanonicalDocument}
    (h : CanonicalFields fields d) :
    List.Forall₂ (IsRelation (Document.canonical d).origin (d.intervals.map (·.id)))
      ((Json.object fields).itemsAt (Document.canonical d).origin.relations) d.model.relations :=
  h.relations.items.imp fun _ _ => IsCanonicalRelation.isRelation

/-- The relations of the model are the ones that are written where its origin says. -/
theorem IsDocument.relations {input : Json} {doc : Document} (h : IsDocument input doc) :
    List.Forall₂ (IsRelation doc.model.origin (doc.model.intervals.map (·.id)))
      (input.itemsAt doc.model.origin.relations) doc.model.relations := by
  obtain ⟨fields, rfl, -, hfields⟩ := h
  cases doc with
  | legacy d => exact LegacyFields.relationItems hfields
  | canonical d => exact CanonicalFields.relationItems hfields

/-- **A relation stands where its position says.** -/
theorem IsDocument.relation_at {input : Json} {doc : Document} (h : IsDocument input doc) {i : Nat}
    {json : Json} (hjson : input.at? (doc.model.relationAt i) = some json) :
    ∃ r, doc.model.relations[i]? = some r ∧
      IsRelation doc.model.origin (doc.model.intervals.map (·.id)) json r := by
  rw [Model.relationAt, Json.at?_index] at hjson
  exact forall₂_getElem? h.relations hjson

/-- Every relation of the model is written somewhere: where its position says. -/
theorem IsDocument.written_at {input : Json} {doc : Document} (h : IsDocument input doc) {i : Nat}
    {r : Relation (Option AuthoredParams)} (hr : doc.model.relations[i]? = some r) :
    ∃ json, input.at? (doc.model.relationAt i) = some json ∧
      IsRelation doc.model.origin (doc.model.intervals.map (·.id)) json r := by
  rw [Model.relationAt, Json.at?_index]
  exact forall₂_getElem? h.relations.flip hr

/-! ### Constraints -/

theorem LegacyFields.constraintItems {fields : Fields} {d : LegacyDocument}
    (h : LegacyFields fields d) :
    List.Forall₂ IsLegacyConstraint
      ((Json.object fields).itemsAt (Document.legacy d).origin.constraints) d.constraints := by
  show List.Forall₂ _ (((((Json.object fields).at? (.key .root "constraints")).bind
    (·.get? "extra")).bind Json.array?).getD []) _
  rw [Json.at?_key_root]
  rcases h.constraints with ⟨hnone, hempty⟩ | ⟨_, hget, inner, rfl, -, -, hconstraints⟩
  · obtain ⟨-, hconstraints⟩ := Prod.mk.inj hempty
    rw [hnone, hconstraints]
    exact .nil
  · rw [hget]
    exact hconstraints.items

theorem CanonicalFields.constraintItems {fields : Fields} {d : CanonicalDocument}
    (h : CanonicalFields fields d) :
    List.Forall₂ IsCanonicalConstraint
      ((Json.object fields).itemsAt (Document.canonical d).origin.constraints) d.constraints := by
  show List.Forall₂ _ (((((Json.object fields).at? (.key .root "constraints")).bind
    (·.get? "constraints")).bind Json.array?).getD []) _
  rw [Json.at?_key_root]
  rcases h.constraints with ⟨hnone, hempty⟩ | ⟨_, hget, inner, rfl, -, hconstraints⟩
  · rw [hnone, hempty]
    exact .nil
  · rw [hget]
    exact hconstraints.items

/-- The constraints of the model are as many as are written where its origin says. -/
theorem IsDocument.length_constraints {input : Json} {doc : Document} (h : IsDocument input doc) :
    (input.itemsAt doc.model.origin.constraints).length = doc.model.constraints.length := by
  obtain ⟨fields, rfl, -, hfields⟩ := h
  cases doc with
  | legacy d =>
    exact (LegacyFields.constraintItems hfields).length_eq.trans (List.length_map _).symm
  | canonical d =>
    exact (CanonicalFields.constraintItems hfields).length_eq.trans (List.length_map _).symm

end Document
end EventPattern
