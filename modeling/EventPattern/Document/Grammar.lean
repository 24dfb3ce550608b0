import EventPattern.Document.Basic
import EventPattern.Document.Problem

/-! The structure of documents.

`Document.check` reads a document of either shape off a JSON value, or says everything
that is wrong with it. What is found in one field depends on that field alone, and for the
ends of a relation on the ids of the intervals. -/
namespace EventPattern.Document

open Json (Fields)

/-! ### Values of any shape -/

abbrev Check (α : Type) := Location → Json → Checked α

variable {α : Type}

def unknownFields (place : Location) (allowed : List String) (fields : Fields) : Checked Unit :=
  .report (((fields.map (·.1)).filter (!allowed.contains ·)).map fun key =>
    ⟨.key place key, .unknownField key⟩)

def anyObject : Check Fields
  | _, .object fields => .ok fields
  | place, _ => .fail place .notAnObject

/-- An object of some fields only, read by what it holds. -/
def object (allowed : List String) (read : Location → Fields → Checked α) : Check α
  | place, .object fields => (unknownFields place allowed fields).also (read place fields)
  | place, _ => .fail place .notAnObject

def required (place : Location) (fields : Fields) (key : String) (check : Check α) : Checked α :=
  match fields.get? key with
  | some value => check (.key place key) value
  | none => .fail (.key place key) (.missingField key)

def defaulting (place : Location) (fields : Fields) (key : String) (default : α)
    (check : Check α) : Checked α :=
  match fields.get? key with
  | some value => check (.key place key) value
  | none => .ok default

def optional (place : Location) (fields : Fields) (key : String) (check : Check α) :
    Checked (Option α) :=
  defaulting place fields key none fun place value => (check place value).map some

def list (check : Check α) : Check (List α)
  | place, .array items => .all (items.zipIdx.map fun item => check (.index place item.2) item.1)
  | place, _ => .fail place .notAnArray

def string : Check String
  | _, .string text => .ok text
  | place, _ => .fail place .notAString

def nonEmpty (what : String) : Check String
  | place, value => (string place value).andThen fun text =>
    if text = "" then .fail place (.emptyText what) else .ok text

def identifier : Check String := nonEmpty "id"

/-! ### Intervals -/

/-- A number without a fraction, kept within the ticks there are. -/
def tick : Check Tick
  | place, .number n =>
    match n.toUInt64? with
    | some tick => .ok tick
    | none =>
      if ¬ n.value.isWhole then .fail place .fractionalTick
      else if n.value < .zero then .fail place .negativeTick
      else .ok (.ofNat (min n.value.floor.toNat (2 ^ 64 - 1)))
  | place, _ => .fail place .notATick

/-- Start and end of an interval, the start not after the end. -/
def span (place : Location) (fields : Fields) : Checked (Tick × Tick) :=
  ((required place fields "start" tick).both (required place fields "end" tick)).andThen
    fun ticks =>
      if ticks.2 < ticks.1 then .fail (.key place "end") .invertedInterval else .ok ticks

def predicate : Check Predicate :=
  object ["name", "args"] fun place fields =>
    Predicate.mk <$> required place fields "name" (nonEmpty "predicate name")
      <*> defaulting place fields "args" [] (list (nonEmpty "arg"))

def interval : Check Interval :=
  object ["id", "start", "end", "predicate", "label"] fun place fields =>
    (fun id ticks predicate label =>
        { id, start := ticks.1, stop := ticks.2, predicate, label })
      <$> required place fields "id" identifier
      <*> span place fields
      <*> required place fields "predicate" predicate
      <*> optional place fields "label" (nonEmpty "label")

/-- The intervals of a document as they are written, when there is a list of them. -/
def rawIntervals? (fields : Fields) : Option (List Json) :=
  (fields.get? "intervals").bind Json.array?

/-- The ids of the intervals, readable or not. -/
def intervalIds? (fields : Fields) : Option (List String) :=
  (rawIntervals? fields).map fun items => items.filterMap Json.id?

/-- Every id after its first use. -/
def repeatedIds (place : Location) : List String → List (Json × Nat) → List Finding
  | _, [] => []
  | seen, (item, position) :: rest =>
    match item.id? with
    | none => repeatedIds place seen rest
    | some id =>
      if seen.contains id then
        ⟨.key (.index place position) "id", .duplicateInterval id⟩ :: repeatedIds place seen rest
      else repeatedIds place (id :: seen) rest

def intervals (fields : Fields) : Checked (List Interval) :=
  let repeated :=
    repeatedIds (.key .root "intervals") [] ((rawIntervals? fields).getD []).zipIdx
  (Checked.report repeated).also (required .root fields "intervals" (list interval))

/-! ### Parameters -/

/-- The value of a parameter, in the closed domain of its kind. -/
def paramValue : ParamKind → Check Unit
  | .comparator, place, value =>
    if (Comparator.ofJson? value).isSome then .ok () else .fail place .notAComparator
  | .threshold, place, value =>
    if (Threshold.ofJson? value).isSome then .ok ()
    else if value.number?.isSome then .fail place .negativeThreshold
    else .fail place .notAThreshold
  | .amount, place, value =>
    if (nonNegative? value).isSome then .ok ()
    else if value.number?.isSome then .fail place .negativeAmount
    else .fail place .notAnAmount

def paramField (place : Location) (field : String × Json) : Checked Unit :=
  match ParamKey.ofName? field.1 with
  | none => .fail (.key place field.1) (.unknownParamKey field.1)
  | some (key, _) => paramValue key.kind (.key place field.1) field.2

/-- `null` is the same as no parameters. -/
def params : Check (Option AuthoredParams)
  | _, .null => .ok none
  | place, value => (anyObject place value).andThen fun fields =>
    (Checked.all (fields.map (paramField place))).map fun _ => some (.ofFields fields)

def paramKey : Check ParamKey
  | place, value => (string place value).andThen fun name =>
    match ParamKey.ofName? name with
    | some (key, _) => .ok key
    | none => .fail place (.unknownParamKey name)

/-! ### Relations -/

/-- One end of a relation: the id of an interval, if it is known which there are. -/
def endpoint (known : Option (List String)) : Check String
  | place, value => (identifier place value).andThen fun id =>
    match known with
    | none => .ok id
    | some ids => if ids.contains id then .ok id else .fail place (.unknownInterval id)

def legacyRelation (known : Option (List String)) : Check LegacyRelation :=
  object ["id", "leftIntervalId", "rightIntervalId", "operatorKey", "params", "allenAlias",
      "constraintIds"] fun place fields =>
    LegacyRelation.mk <$> required place fields "id" identifier
      <*> required place fields "leftIntervalId" (endpoint known)
      <*> required place fields "rightIntervalId" (endpoint known)
      <*> required place fields "operatorKey" (nonEmpty "operatorKey")
      <*> defaulting place fields "params" none params
      <*> optional place fields "allenAlias" (nonEmpty "allenAlias")
      <*> defaulting place fields "constraintIds" [] (list identifier)

def canonicalRelation (known : Option (List String)) : Check (Relation (Option AuthoredParams)) :=
  object ["id", "left", "right", "operatorId", "params", "constraintIds", "label"]
    fun place fields =>
    Relation.mk <$> required place fields "id" identifier
      <*> required place fields "left" (endpoint known)
      <*> required place fields "right" (endpoint known)
      <*> required place fields "operatorId" (nonEmpty "operatorId")
      <*> defaulting place fields "params" none params
      <*> defaulting place fields "constraintIds" [] (list identifier)
      <*> optional place fields "label" (nonEmpty "label")

/-! ### Constraints -/

def legacyConstraint : Check LegacyConstraint :=
  object ["id", "kind", "payload"] fun place fields =>
    LegacyConstraint.mk <$> required place fields "id" identifier
      <*> required place fields "kind" (nonEmpty "constraint kind")
      <*> defaulting place fields "payload" [] anyObject

/-- A value for a parameter that is named beside it. -/
def paramAssignment (place : Location) (fields : Fields) : Checked (ParamKey × Json) :=
  ((required place fields "param" paramKey).both
      (required place fields "value" fun _ value => .ok value)).andThen fun pair =>
    (paramValue pair.1.kind (.key place "value") pair.2).map fun _ => pair

def relationParam : Check CanonicalConstraint :=
  object ["kind", "id", "relationId", "param", "value"] fun place fields =>
    (fun id relationId assignment =>
        .relationParam id relationId assignment.1 assignment.2)
      <$> required place fields "id" identifier
      <*> required place fields "relationId" identifier
      <*> paramAssignment place fields

def note : Check CanonicalConstraint :=
  object ["kind", "id", "text"] fun place fields =>
    CanonicalConstraint.note <$> required place fields "id" identifier
      <*> required place fields "text" string

/-- The kind says which fields there are. -/
def canonicalConstraint : Check CanonicalConstraint
  | place, value => (anyObject place value).andThen fun fields =>
    (required place fields "kind" string).andThen fun kind =>
      if kind = "relationParam" then relationParam place value
      else if kind = "note" then note place value
      else .fail (.key place "kind") .unknownConstraintKind

/-! ### Documents -/

def selection : Check Selection :=
  object ["constraintIds"] fun place fields =>
    Selection.mk <$> required place fields "constraintIds" (list identifier)

def legacyConstraints (known : Option (List String)) :
    Check (List LegacyRelation × List LegacyConstraint) :=
  object ["temporal", "extra"] fun place fields =>
    (defaulting place fields "temporal" [] (list (legacyRelation known))).both
      (defaulting place fields "extra" [] (list legacyConstraint))

def legacyDocument (fields : Fields) : Checked LegacyDocument :=
  let known := intervalIds? fields
  (unknownFields .root ["schemaVersion", "id", "name", "description", "createdAt", "updatedAt",
      "intervals", "constraints", "temporalExpression"] fields).also
    ((fun id name description createdAt updatedAt intervals constraints selection =>
        { id, name, description, createdAt, updatedAt, intervals, selection
          relations := constraints.1, constraints := constraints.2 })
      <$> required .root fields "id" identifier
      <*> required .root fields "name" (nonEmpty "model name")
      <*> optional .root fields "description" string
      <*> optional .root fields "createdAt" string
      <*> optional .root fields "updatedAt" string
      <*> intervals fields
      <*> defaulting .root fields "constraints" ([], []) (legacyConstraints known)
      <*> optional .root fields "temporalExpression" selection)

/-- Name, description and time of creation. -/
def metadata : Check (String × Option String × Option String) :=
  object ["name", "description", "createdAtISO"] fun place fields =>
    (fun name description createdAt => (name, description, createdAt))
      <$> required place fields "name" (nonEmpty "model name")
      <*> optional place fields "description" string
      <*> optional place fields "createdAtISO" string

def canonicalConstraints : Check (List CanonicalConstraint) :=
  object ["constraints"] fun place fields =>
    defaulting place fields "constraints" [] (list canonicalConstraint)

def canonicalDocument (fields : Fields) : Checked CanonicalDocument :=
  let known := intervalIds? fields
  (unknownFields .root ["schemaVersion", "id", "meta", "intervals", "relations", "constraints",
      "temporalExpression"] fields).also
    ((fun id metadata intervals relations constraints selection =>
        { id, name := metadata.1, description := metadata.2.1, createdAt := metadata.2.2
          intervals, relations, constraints, selection })
      <$> required .root fields "id" identifier
      <*> required .root fields "meta" metadata
      <*> intervals fields
      <*> defaulting .root fields "relations" [] (list (canonicalRelation known))
      <*> defaulting .root fields "constraints" [] canonicalConstraints
      <*> optional .root fields "temporalExpression" selection)

/-- The version says which shape a document has. -/
def checked : Json → Checked Document
  | .object fields =>
    match Fields.get? fields "schemaVersion" with
    | none => .fail (.key .root "schemaVersion") (.missingField "schemaVersion")
    | some version =>
      if version.string? = some legacyVersion then (legacyDocument fields).map .legacy
      else if version.string? = some canonicalVersion then (canonicalDocument fields).map .canonical
      else .fail (.key .root "schemaVersion") (.unsupportedVersion version)
  | _ => .fail .root .notADocument

/-- The document, or its issues in order. -/
def check (input : Json) : Except (List Issue) Document :=
  match checked input with
  | .ok document => .ok document
  | .failed first more => .error (Issue.sort ((first :: more).map Finding.issue))

end EventPattern.Document
