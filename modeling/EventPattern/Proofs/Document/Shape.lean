import EventPattern.Document.Grammar
import Mathlib.Data.List.Forall2

/-! The grammar of documents, said without its checks.

A `Shape` relates a JSON value to what it is read as: `IsInterval json i` says that the
value is well formed and is the interval `i`. There is a shape for each part of a document,
up to `IsDocument`; where a part is looked at does not matter to it. -/
namespace EventPattern.Document

open Json (Fields)

/-- What a JSON value is read as, if it is well formed. -/
abbrev Shape (α : Type) := Json → α → Prop

variable {α : Type}

/-! ### Values of any shape -/

def IsText : Shape String := fun json text => json = .string text

def IsNonEmpty : Shape String := fun json text => json = .string text ∧ text ≠ ""

def IsList (shape : Shape α) : Shape (List α) := fun json values =>
  ∃ items, json = .array items ∧ List.Forall₂ shape items values

def IsObject : Shape Fields := fun json fields => json = .object fields

/-- The fields have no other keys. -/
def Only (allowed : List String) (fields : Fields) : Prop := ∀ field ∈ fields, field.1 ∈ allowed

/-- An object of some fields only. -/
def IsObjectOf (allowed : List String) (read : Fields → α → Prop) : Shape α := fun json a =>
  ∃ fields, json = .object fields ∧ Only allowed fields ∧ read fields a

/-- A field that has to be there. -/
def HasField (fields : Fields) (key : String) (shape : Shape α) (a : α) : Prop :=
  ∃ json, fields.get? key = some json ∧ shape json a

/-- A field with a default for when it is absent. -/
def HasFieldOr (fields : Fields) (key : String) (default : α) (shape : Shape α) (a : α) : Prop :=
  (fields.get? key = none ∧ a = default) ∨ HasField fields key shape a

/-- Fields that hold the same may go by different keys. -/
theorem HasField.of_get? {fields others : Fields} {key other : String} {shape : Shape α} {a : α}
    (hget : others.get? other = fields.get? key) (h : HasField fields key shape a) :
    HasField others other shape a := by
  rw [HasField, hget]
  exact h

theorem HasFieldOr.of_get? {fields others : Fields} {key other : String} {shape : Shape α}
    {a default : α} (hget : others.get? other = fields.get? key)
    (h : HasFieldOr fields key default shape a) : HasFieldOr others other default shape a := by
  rw [HasFieldOr, HasField, hget]
  exact h

def IsSome (shape : Shape α) : Shape (Option α) := fun json given =>
  ∃ a, given = some a ∧ shape json a

/-- A field that may be absent. -/
def MayHaveField (fields : Fields) (key : String) (shape : Shape α) (given : Option α) : Prop :=
  HasFieldOr fields key none (IsSome shape) given

/-! ### Intervals -/

/-- A whole number that is not negative; beyond the largest tick, that one. -/
def IsTick : Shape Tick := fun json tick =>
  ∃ n, json = .number n ∧
    (n.toUInt64? = some tick ∨
      (n.toUInt64? = none ∧ n.value.isWhole ∧ .zero ≤ n.value ∧
        tick = .ofNat (min n.value.floor.toNat (2 ^ 64 - 1))))

structure PredicateFields (fields : Fields) (p : Predicate) : Prop where
  name : HasField fields "name" IsNonEmpty p.name
  args : HasFieldOr fields "args" [] (IsList IsNonEmpty) p.args

def IsPredicate : Shape Predicate := IsObjectOf ["name", "args"] PredicateFields

structure IntervalFields (fields : Fields) (i : Interval) : Prop where
  id : HasField fields "id" IsNonEmpty i.id
  start : HasField fields "start" IsTick i.start
  stop : HasField fields "end" IsTick i.stop
  ordered : i.start ≤ i.stop
  predicate : HasField fields "predicate" IsPredicate i.predicate
  label : MayHaveField fields "label" IsNonEmpty i.label

def IsInterval : Shape Interval :=
  IsObjectOf ["id", "start", "end", "predicate", "label"] IntervalFields

/-! ### Parameters -/

/-- A field that spells a key and holds a value in the closed domain of its kind. -/
def IsParam (field : String × Json) : Prop :=
  ∃ key spelling, ParamKey.ofName? field.1 = some (key, spelling) ∧
    (key.kind.read? field.2).isSome

def IsParams : Shape (Option AuthoredParams) := fun json params =>
  (json = .null ∧ params = none) ∨
    ∃ fields, json = .object fields ∧ (∀ field ∈ fields, IsParam field) ∧
      params = some (.ofFields fields)

def IsParamKey : Shape ParamKey := fun json key =>
  ∃ name spelling, json = .string name ∧ ParamKey.ofName? name = some (key, spelling)

/-! ### Relations -/

/-- The id of one of the intervals. -/
def IsEndpoint (ids : List String) : Shape String := fun json id => IsNonEmpty json id ∧ id ∈ ids

structure LegacyRelationFields (ids : List String) (fields : Fields) (r : LegacyRelation) :
    Prop where
  id : HasField fields "id" IsNonEmpty r.id
  left : HasField fields "leftIntervalId" (IsEndpoint ids) r.left
  right : HasField fields "rightIntervalId" (IsEndpoint ids) r.right
  operator : HasField fields "operatorKey" IsNonEmpty r.operator
  params : HasFieldOr fields "params" none IsParams r.params
  allenAlias : MayHaveField fields "allenAlias" IsNonEmpty r.allenAlias
  constraintIds : HasFieldOr fields "constraintIds" [] (IsList IsNonEmpty) r.constraintIds

def IsLegacyRelation (ids : List String) : Shape LegacyRelation :=
  IsObjectOf ["id", "leftIntervalId", "rightIntervalId", "operatorKey", "params", "allenAlias",
    "constraintIds"] (LegacyRelationFields ids)

structure CanonicalRelationFields (ids : List String) (fields : Fields)
    (r : Relation (Option AuthoredParams)) : Prop where
  id : HasField fields "id" IsNonEmpty r.id
  left : HasField fields "left" (IsEndpoint ids) r.left
  right : HasField fields "right" (IsEndpoint ids) r.right
  operator : HasField fields "operatorId" IsNonEmpty r.operator
  params : HasFieldOr fields "params" none IsParams r.params
  constraintIds : HasFieldOr fields "constraintIds" [] (IsList IsNonEmpty) r.constraintIds
  label : MayHaveField fields "label" IsNonEmpty r.label

def IsCanonicalRelation (ids : List String) : Shape (Relation (Option AuthoredParams)) :=
  IsObjectOf ["id", "left", "right", "operatorId", "params", "constraintIds", "label"]
    (CanonicalRelationFields ids)

/-! ### Constraints -/

structure LegacyConstraintFields (fields : Fields) (c : LegacyConstraint) : Prop where
  id : HasField fields "id" IsNonEmpty c.id
  kind : HasField fields "kind" IsNonEmpty c.kind
  payload : HasFieldOr fields "payload" [] IsObject c.payload

def IsLegacyConstraint : Shape LegacyConstraint :=
  IsObjectOf ["id", "kind", "payload"] LegacyConstraintFields

/-- The kind says which fields there are. -/
inductive CanonicalConstraintFields (fields : Fields) : CanonicalConstraint → Prop where
  | relationParam {id relationId : String} {key : ParamKey} {value : Json}
      (only : Only ["kind", "id", "relationId", "param", "value"] fields)
      (kind : fields.get? "kind" = some (.string "relationParam"))
      (hasId : HasField fields "id" IsNonEmpty id)
      (hasRelation : HasField fields "relationId" IsNonEmpty relationId)
      (hasKey : HasField fields "param" IsParamKey key)
      (hasValue : fields.get? "value" = some value)
      (readable : (key.kind.read? value).isSome) :
      CanonicalConstraintFields fields (.relationParam id relationId key value)
  | note {id text : String}
      (only : Only ["kind", "id", "text"] fields)
      (kind : fields.get? "kind" = some (.string "note"))
      (hasId : HasField fields "id" IsNonEmpty id)
      (hasText : HasField fields "text" IsText text) :
      CanonicalConstraintFields fields (.note id text)

def IsCanonicalConstraint : Shape CanonicalConstraint := fun json c =>
  ∃ fields, json = .object fields ∧ CanonicalConstraintFields fields c

/-! ### Documents -/

def IsSelection : Shape Selection :=
  IsObjectOf ["constraintIds"] fun fields s =>
    HasField fields "constraintIds" (IsList IsNonEmpty) s.ids

/-- Intervals whose ids tell them apart. -/
structure HasIntervals (fields : Fields) (intervals : List Interval) : Prop where
  read : HasField fields "intervals" (IsList IsInterval) intervals
  distinct : (intervals.map (·.id)).Nodup

def IsLegacyConstraints (ids : List String) :
    Shape (List LegacyRelation × List LegacyConstraint) :=
  IsObjectOf ["temporal", "extra"] fun fields parts =>
    HasFieldOr fields "temporal" [] (IsList (IsLegacyRelation ids)) parts.1 ∧
      HasFieldOr fields "extra" [] (IsList IsLegacyConstraint) parts.2

structure LegacyFields (fields : Fields) (d : LegacyDocument) : Prop where
  only : Only ["schemaVersion", "id", "name", "description", "createdAt", "updatedAt",
    "intervals", "constraints", "temporalExpression"] fields
  id : HasField fields "id" IsNonEmpty d.id
  name : HasField fields "name" IsNonEmpty d.name
  description : MayHaveField fields "description" IsText d.description
  createdAt : MayHaveField fields "createdAt" IsText d.createdAt
  updatedAt : MayHaveField fields "updatedAt" IsText d.updatedAt
  intervals : HasIntervals fields d.intervals
  constraints : HasFieldOr fields "constraints" ([], [])
    (IsLegacyConstraints (d.intervals.map (·.id))) (d.relations, d.constraints)
  selection : MayHaveField fields "temporalExpression" IsSelection d.selection

structure MetadataFields (fields : Fields) (m : String × Option String × Option String) :
    Prop where
  name : HasField fields "name" IsNonEmpty m.1
  description : MayHaveField fields "description" IsText m.2.1
  createdAt : MayHaveField fields "createdAtISO" IsText m.2.2

def IsMetadata : Shape (String × Option String × Option String) :=
  IsObjectOf ["name", "description", "createdAtISO"] MetadataFields

def IsCanonicalConstraints : Shape (List CanonicalConstraint) :=
  IsObjectOf ["constraints"] fun fields constraints =>
    HasFieldOr fields "constraints" [] (IsList IsCanonicalConstraint) constraints

structure CanonicalFields (fields : Fields) (d : CanonicalDocument) : Prop where
  only : Only ["schemaVersion", "id", "meta", "intervals", "relations", "constraints",
    "temporalExpression"] fields
  id : HasField fields "id" IsNonEmpty d.id
  metadata : HasField fields "meta" IsMetadata (d.name, d.description, d.createdAt)
  intervals : HasIntervals fields d.intervals
  relations : HasFieldOr fields "relations" []
    (IsList (IsCanonicalRelation (d.intervals.map (·.id)))) d.relations
  constraints : HasFieldOr fields "constraints" [] IsCanonicalConstraints d.constraints
  selection : MayHaveField fields "temporalExpression" IsSelection d.selection

/-- The fields are those of the document's shape. -/
def DocumentFields (fields : Fields) : Document → Prop
  | .legacy d => LegacyFields fields d
  | .canonical d => CanonicalFields fields d

/-- The version says which shape a document has. -/
def IsDocument : Shape Document := fun json doc =>
  ∃ fields, json = .object fields ∧
    HasField fields "schemaVersion" IsText doc.version ∧ DocumentFields fields doc

end EventPattern.Document
