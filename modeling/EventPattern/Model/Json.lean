import EventPattern.Model.Basic

/-! Models in JSON.

Reading is lenient: what is not known is ignored, the parts of a relation may go by either
of two names, and most fields may be absent. `null` stands for an absent value only where
a value is optional. All but constraints may be written as arrays of their fields. -/
namespace EventPattern

/-! ### Writing -/

def Predicate.toJson (p : Predicate) : Json :=
  .object [("args", .strings p.args), ("name", .string p.name)]

def Interval.toJson (i : Interval) : Json :=
  .record [("end", some (.number (.ofUInt64 i.stop))), ("id", some (.string i.id)),
    ("label", i.label.map .string), ("predicate", some i.predicate.toJson),
    ("start", some (.number (.ofUInt64 i.start)))]

/-- A list that is left out when it is empty. -/
def Json.nonEmptyStrings (texts : List String) : Option Json :=
  if texts.isEmpty then none else some (.strings texts)

def Json.nonEmptyFields (fields : Json.Fields) : Option Json :=
  if fields.isEmpty then none else some (.object fields)

def Relation.toJson {P : Type} (params : P → Json) (r : Relation P) : Json :=
  .record [("constraintIds", Json.nonEmptyStrings r.constraintIds), ("id", some (.string r.id)),
    ("label", r.label.map .string), ("leftIntervalId", some (.string r.left)),
    ("operatorId", some (.string r.operator)), ("params", some (params r.params)),
    ("rightIntervalId", some (.string r.right))]

def Constraint.toJson (c : Constraint) : Json :=
  let own : List (String × Option Json) := [("id", some (.string c.id)),
    ("kind", some (.string c.kind.name)), ("payload", Json.nonEmptyFields c.payload)]
  .object (Json.Fields.ofEntries
    (own.filterMap (fun field => field.2.map (field.1, ·)) ++ c.loose))

def Selection.toJson (s : Selection) : Json := .object [("constraintIds", .strings s.ids)]

def Model.toJson {P : Type} (params : P → Json) (m : Model P) : Json :=
  .record [("constraints", some (.array (m.constraints.map Constraint.toJson))),
    ("description", m.description.map .string), ("id", some (.string m.id)),
    ("intervals", some (.array (m.intervals.map Interval.toJson))),
    ("name", m.name.map .string),
    ("relations", some (.array (m.relations.map (Relation.toJson params)))),
    ("schemaVersion", some (.string m.schemaVersion)),
    ("temporalExpression", m.selection.map Selection.toJson)]

def AuthoredModel.toJson (m : AuthoredModel) : Json :=
  Model.toJson (fun params => .ofOption (params.map AuthoredParams.toJson)) m

def ResolvedModel.toJson (m : ResolvedModel) : Json := Model.toJson TypedParams.toJson m

/-! ### Reading -/

namespace Json

/-- A field read as given, or the default when it is absent. -/
def fieldOr {α : Type} (fields : Fields) (key : String) (default : α) (read : Json → Option α) :
    Option α :=
  match fields.get? key with
  | none => some default
  | some json => read json

def fieldOf {α : Type} (fields : Fields) (key : String) (read : Json → Option α) : Option α :=
  (fields.get? key).bind read

/-- An optional field, for which `null` is the same as absent. -/
def optionalField {α : Type} (fields : Fields) (key : String) (read : Json → Option α) :
    Option (Option α) :=
  match fields.get? key with
  | none | some .null => some none
  | some json => (read json).map some

/-- A field that goes by one of two names, not by both. -/
def eitherField? (fields : Fields) (key other : String) : Option (Option Json) :=
  match fields.get? key, fields.get? other with
  | some _, some _ => none
  | some json, none | none, some json => some (some json)
  | none, none => some none

def eitherField {α : Type} (fields : Fields) (key other : String) (read : Json → Option α) :
    Option α := do
  let json ← (← eitherField? fields key other)
  read json

def listOf {α : Type} (read : Json → Option α) (json : Json) : Option (List α) := do
  (← json.array?).mapM read

def uint64? (json : Json) : Option UInt64 := json.number?.bind Number.toUInt64?

def int64? (json : Json) : Option Int64 := json.number?.bind Number.toInt64?

end Json

open Json (fieldOr fieldOf optionalField eitherField eitherField? listOf)

def Predicate.ofJson? (json : Json) : Option Predicate := do
  let fields ← json.recordFields? ["name", "args"]
  let name ← fieldOf fields "name" Json.string?
  let args ← fieldOr fields "args" [] (listOf Json.string?)
  some { name, args }

def Predicate.unknown : Predicate := { name := "UNKNOWN" }

def Interval.ofJson? (json : Json) : Option Interval := do
  let fields ← json.recordFields? ["id", "start", "end", "predicate", "label"]
  let id ← fieldOf fields "id" Json.string?
  let start ← fieldOr fields "start" 0 Json.uint64?
  let stop ← fieldOr fields "end" 0 Json.uint64?
  let predicate ← fieldOr fields "predicate" .unknown Predicate.ofJson?
  let label ← optionalField fields "label" Json.string?
  some { id, start, stop, predicate, label }

def Relation.ofJson? {P : Type} (params : Json.Fields → Option P) (json : Json) :
    Option (Relation P) := do
  let fields ← json.recordFields? ["id", "leftIntervalId", "rightIntervalId", "operatorId",
    "params", "constraintIds", "label"]
  let id ← fieldOf fields "id" Json.string?
  let left ← eitherField fields "leftIntervalId" "left" Json.string?
  let right ← eitherField fields "rightIntervalId" "right" Json.string?
  let operator ← eitherField fields "operatorId" "operatorKey" Json.string?
  let params ← params fields
  let constraintIds ← fieldOr fields "constraintIds" [] (listOf Json.string?)
  let label ← optionalField fields "label" Json.string?
  some { id, left, right, operator, params, constraintIds, label }

def Constraint.ofJson? (json : Json) : Option Constraint := do
  let fields ← json.object?
  let id ← fieldOf fields "id" Json.string?
  let kind ← eitherField fields "kind" "type" Json.string?
  let payload ← fieldOr fields "payload" [] Json.object?
  let loose := fields.filter fun field => field.1 ∉ ["id", "kind", "type", "payload"]
  some { id, kind := .ofName kind, payload, loose }

def Selection.ofJson? (json : Json) : Option Selection := do
  let fields ← json.recordFields? ["constraintIds"]
  let ids ← fieldOr fields "constraintIds" [] (listOf Json.string?)
  some { ids }

def Model.ofJson? {P : Type} (params : Json.Fields → Option P) (json : Json) :
    Option (Model P) := do
  let fields ← json.recordFields? ["schemaVersion", "id", "name", "description", "intervals",
    "relations", "constraints", "temporalExpression"]
  let schemaVersion ← fieldOr fields "schemaVersion" "" Json.string?
  let id ← fieldOr fields "id" "" Json.string?
  let name ← optionalField fields "name" Json.string?
  let description ← optionalField fields "description" Json.string?
  let intervals ← fieldOr fields "intervals" [] (listOf Interval.ofJson?)
  let relations ← match ← eitherField? fields "relations" "expressions" with
    | none => some []
    | some json => listOf (Relation.ofJson? params) json
  let constraints ← fieldOr fields "constraints" [] (listOf Constraint.ofJson?)
  let selection ← optionalField fields "temporalExpression" Selection.ofJson?
  some { schemaVersion, id, name, description, intervals, relations, constraints, selection }

/-- Unknown parameter names are dropped, and absent parameters are allowed. -/
def AuthoredModel.ofJson? (json : Json) : Option AuthoredModel :=
  Model.ofJson? (fun fields => optionalField fields "params" fun params =>
    params.object?.map AuthoredParams.ofFields) json

def ResolvedModel.ofJson? (json : Json) : Option ResolvedModel :=
  Model.ofJson? (fun fields => fieldOr fields "params" {} TypedParams.ofJson?) json

end EventPattern
