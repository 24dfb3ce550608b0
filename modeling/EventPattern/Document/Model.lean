import EventPattern.Document.Json

/-! From documents to models and back.

`Document.model` is the model of a document; `ResolvedModel.toDocument` wraps a resolved
model in the shape it came from, with every parameter written out. What a shape cannot hold
is left out there: times of creation, aliases, and constraints of other kinds. -/
namespace EventPattern

/-! ### The model of a document -/

def LegacyRelation.relation (r : LegacyRelation) : Relation (Option AuthoredParams) :=
  { id := r.id, left := r.left, right := r.right, operator := r.operator, params := r.params
    constraintIds := r.constraintIds }

def LegacyConstraint.constraint (c : LegacyConstraint) : Constraint :=
  { id := c.id, kind := .ofName c.kind, payload := c.payload }

def CanonicalConstraint.constraint : CanonicalConstraint → Constraint
  | relationParam id relationId key value =>
    { id, kind := .relationParam
      payload := [("param", .string key.latin), ("relationId", .string relationId),
        ("value", value)] }
  | note id text => { id, kind := .note, payload := [("text", .string text)] }

def LegacyDocument.model (d : LegacyDocument) : AuthoredModel :=
  { schemaVersion := Document.legacyVersion, id := d.id, name := some d.name
    description := d.description, intervals := d.intervals
    relations := d.relations.map LegacyRelation.relation
    constraints := d.constraints.map LegacyConstraint.constraint
    selection := d.selection, origin := (Document.legacy d).origin }

def CanonicalDocument.model (d : CanonicalDocument) : AuthoredModel :=
  { schemaVersion := Document.canonicalVersion, id := d.id, name := some d.name
    description := d.description, intervals := d.intervals, relations := d.relations
    constraints := d.constraints.map CanonicalConstraint.constraint
    selection := d.selection, origin := (Document.canonical d).origin }

def Document.model : Document → AuthoredModel
  | legacy doc => doc.model
  | canonical doc => doc.model

/-! ### The document of a resolved model -/

def Constraint.toLegacy (c : Constraint) : LegacyConstraint :=
  { id := c.id, kind := c.kind.name, payload := c.payload }

/-- The canonical shape has parameter constraints and notes only. -/
def Constraint.toCanonical? (c : Constraint) : Option CanonicalConstraint :=
  match c.kind with
  | .relationParam => do
    let relationId ← (← c.field? "relationId").string?
    let name ← (← c.field? "param").string?
    let (key, _) ← ParamKey.ofName? name
    let value ← c.field? "value"
    some (.relationParam c.id relationId key value)
  | .note => do
    let text ← (← c.field? "text").string?
    some (.note c.id text)
  | _ => none

namespace ResolvedModel

def toLegacy (m : ResolvedModel) : LegacyDocument :=
  { id := m.id, name := m.name.getD m.id, description := m.description, intervals := m.intervals
    relations := m.relations.map fun r =>
      { id := r.id, left := r.left, right := r.right, operator := r.operator
        params := some (.ofTyped r.params), constraintIds := r.constraintIds }
    constraints := m.constraints.map Constraint.toLegacy, selection := m.selection }

def toCanonical (m : ResolvedModel) : CanonicalDocument :=
  { id := m.id, name := m.name.getD m.id, description := m.description, intervals := m.intervals
    relations := m.relations.map fun r => { r with params := some (.ofTyped r.params) }
    constraints := m.constraints.filterMap Constraint.toCanonical?, selection := m.selection }

/-- A model of neither version is written as the model it is. -/
def toDocument (m : ResolvedModel) : Json :=
  if m.schemaVersion = Document.legacyVersion then m.toLegacy.toJson
  else if m.schemaVersion = Document.canonicalVersion then m.toCanonical.toJson
  else m.toJson

end ResolvedModel
end EventPattern
