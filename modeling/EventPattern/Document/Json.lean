import EventPattern.Document.Basic
import EventPattern.Model.Json

/-! Documents in JSON, in the shape that `Document.check` reads. -/
namespace EventPattern

def LegacyRelation.toJson (r : LegacyRelation) : Json :=
  .record [("allenAlias", r.allenAlias.map .string),
    ("constraintIds", Json.nonEmptyStrings r.constraintIds), ("id", some (.string r.id)),
    ("leftIntervalId", some (.string r.left)), ("operatorKey", some (.string r.operator)),
    ("params", r.params.map AuthoredParams.toJson), ("rightIntervalId", some (.string r.right))]

def LegacyConstraint.toJson (c : LegacyConstraint) : Json :=
  .object [("id", .string c.id), ("kind", .string c.kind), ("payload", .object c.payload)]

def LegacyDocument.toJson (d : LegacyDocument) : Json :=
  .record [
    ("constraints", some (.object [
      ("extra", .array (d.constraints.map LegacyConstraint.toJson)),
      ("temporal", .array (d.relations.map LegacyRelation.toJson))])),
    ("createdAt", d.createdAt.map .string), ("description", d.description.map .string),
    ("id", some (.string d.id)), ("intervals", some (.array (d.intervals.map Interval.toJson))),
    ("name", some (.string d.name)), ("schemaVersion", some (.string Document.legacyVersion)),
    ("temporalExpression", d.selection.map Selection.toJson),
    ("updatedAt", d.updatedAt.map .string)]

def CanonicalConstraint.toJson : CanonicalConstraint → Json
  | relationParam id relationId key value =>
    .object [("id", .string id), ("kind", .string "relationParam"),
      ("param", .string key.latin), ("relationId", .string relationId), ("value", value)]
  | note id text =>
    .object [("id", .string id), ("kind", .string "note"), ("text", .string text)]

/-- A relation of the canonical shape; absent parameters are left out. -/
def canonicalRelationJson (r : Relation (Option AuthoredParams)) : Json :=
  .record [("constraintIds", Json.nonEmptyStrings r.constraintIds), ("id", some (.string r.id)),
    ("label", r.label.map .string), ("left", some (.string r.left)),
    ("operatorId", some (.string r.operator)),
    ("params", r.params.map AuthoredParams.toJson), ("right", some (.string r.right))]

def CanonicalDocument.toJson (d : CanonicalDocument) : Json :=
  .record [
    ("constraints", some (.object [
      ("constraints", .array (d.constraints.map CanonicalConstraint.toJson))])),
    ("id", some (.string d.id)), ("intervals", some (.array (d.intervals.map Interval.toJson))),
    ("meta", some (.record [("createdAtISO", d.createdAt.map .string),
      ("description", d.description.map .string), ("name", some (.string d.name))])),
    ("relations", some (.array (d.relations.map canonicalRelationJson))),
    ("schemaVersion", some (.string Document.canonicalVersion)),
    ("temporalExpression", d.selection.map Selection.toJson)]

def Document.toJson : Document → Json
  | legacy doc => doc.toJson
  | canonical doc => doc.toJson

end EventPattern
