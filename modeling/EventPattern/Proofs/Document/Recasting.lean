import EventPattern.Proofs.Document.Places
import EventPattern.Proofs.Document.Written

/-! The legacy shape in the canonical one.

What a legacy document without further constraints says can be said in the canonical shape:
`Json.recast` moves its parts there as they are written, under the names they have there. The
result is in the grammar, and its model is the same but for its version and its origin
(`IsDocument.recast`, `LegacyDocument.model_recast`). -/
namespace EventPattern

/-! ### Documents -/

/-- A legacy relation under the names of the canonical shape; an alias is left out. -/
def Json.recastRelation (relation : Json) : Json :=
  .record [("constraintIds", relation.get? "constraintIds"), ("id", relation.get? "id"),
    ("left", relation.get? "leftIntervalId"), ("operatorId", relation.get? "operatorKey"),
    ("params", relation.get? "params"), ("right", relation.get? "rightIntervalId")]

/-- A legacy document in the canonical shape; times and further constraints are left out. -/
def Json.recast (doc : Json) : Json :=
  .record [("id", doc.get? "id"), ("intervals", doc.get? "intervals"),
    ("meta", some (.record [("description", doc.get? "description"), ("name", doc.get? "name")])),
    ("relations", some (.array ((doc.itemsAt (.key (.key .root "constraints") "temporal")).map
      Json.recastRelation))),
    ("schemaVersion", some (.string Document.canonicalVersion)),
    ("temporalExpression", doc.get? "temporalExpression")]

def LegacyDocument.recast (d : LegacyDocument) : CanonicalDocument :=
  { id := d.id, name := d.name, description := d.description, intervals := d.intervals
    relations := d.relations.map LegacyRelation.relation, selection := d.selection }

namespace Document

open Json (Fields)

theorem IsLegacyRelation.recast {ids : List String} {json : Json} {r : LegacyRelation}
    (h : IsLegacyRelation ids json r) :
    IsCanonicalRelation ids json.recastRelation r.relation := by
  obtain ⟨fields, rfl, -, h⟩ := h
  refine ⟨_, Json.Fields.record_eq _, only_present (by simp), ?_⟩
  exact {
    id := h.id.of_get? (by simp)
    left := h.left.of_get? (by simp)
    right := h.right.of_get? (by simp)
    operator := h.operator.of_get? (by simp)
    params := h.params.of_get? (by simp)
    constraintIds := h.constraintIds.of_get? (by simp)
    label := .inl ⟨by simp, rfl⟩ }

theorem LegacyFields.recast_metadata {fields : Fields} {d : LegacyDocument}
    (h : LegacyFields fields d) :
    IsMetadata (.record [("description", fields.get? "description"), ("name", fields.get? "name")])
      (d.name, d.description, none) := by
  refine ⟨_, Json.Fields.record_eq _, only_present (by simp), ?_⟩
  exact {
    name := h.name.of_get? (by simp)
    description := h.description.of_get? (by simp)
    createdAt := .inl ⟨by simp, rfl⟩ }

theorem LegacyFields.recast_relations {fields : Fields} {d : LegacyDocument}
    (h : LegacyFields fields d) :
    IsList (IsCanonicalRelation (d.intervals.map (·.id)))
      (.array (((Json.object fields).itemsAt (.key (.key .root "constraints") "temporal")).map
        Json.recastRelation)) (d.relations.map LegacyRelation.relation) := by
  refine ⟨_, rfl, List.forall₂_map_left_iff.mpr (List.forall₂_map_right_iff.mpr ?_)⟩
  exact h.temporalItems.imp fun _ _ => IsLegacyRelation.recast

/-- **A legacy document in the canonical shape is a document.** -/
theorem IsDocument.recast {input : Json} {d : LegacyDocument} (h : IsDocument input (.legacy d)) :
    IsDocument input.recast (.canonical d.recast) := by
  obtain ⟨fields, rfl, -, h⟩ := h
  have h : LegacyFields fields d := h
  refine ⟨_, Json.Fields.record_eq _, ⟨.string canonicalVersion, by simp, rfl⟩, ?_⟩
  show CanonicalFields _ d.recast
  exact {
    only := only_present (by simp)
    id := h.id.of_get? (by simp)
    metadata := ⟨_, by simp, h.recast_metadata⟩
    intervals := ⟨h.intervals.read.of_get? (by simp), h.intervals.distinct⟩
    relations := .inr ⟨_, by simp, h.recast_relations⟩
    constraints := .inl ⟨by simp, rfl⟩
    selection := h.selection.of_get? (by simp) }

end Document

/-! ### Models -/

theorem LegacyDocument.model_recast {d : LegacyDocument} (h : d.constraints = []) :
    d.recast.model = { d.model with
      schemaVersion := Document.canonicalVersion
      origin := (Document.canonical d.recast).origin } := by
  unfold LegacyDocument.model
  rw [h]
  rfl

end EventPattern
