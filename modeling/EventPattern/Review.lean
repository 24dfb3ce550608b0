import EventPattern.Catalog.Basic
import EventPattern.Issue
import EventPattern.Json.Printing

/-! Reviewing a model against a catalog.

Errors are references that lead nowhere, constraints that an operator does not support and
parameter values that it does not allow. Warnings are advice: on missing parameters, on
Greek spellings, on thresholds that allow everything and on constraints that restrict
nothing. A relation with a wrong value keeps no other advice than that on its
thresholds. -/
namespace EventPattern

/-! ### Remarks -/

inductive Remark where
  | unknownOperator (reference : String)
  | unknownInterval (key id : String)
  | unknownConstraint (id : String)
  | unsupportedConstraint (kind : ConstraintKind) (reference : String)
  | unreadableValue (key : ParamKey) (raw : Json)
  | valueNotAllowed (key : ParamKey) (value : key.Value) (reference : String)
  | missingParams (relation : String)
  | greekKeys (names : List String)
  | permissiveThresholds (reference : String)
  | redundantOverlap
  | redundantRobustness
  | redundantCardinality

namespace Remark

def severity : Remark → Severity
  | unknownOperator _ | unknownInterval _ _ | unknownConstraint _ | unsupportedConstraint _ _
  | unreadableValue _ _ | valueNotAllowed _ _ _ => .error
  | _ => .warning

def valueCode (key : ParamKey) : String :=
  if key.kind = .comparator then "INVALID_COMPARATOR" else "PARAM_OUT_OF_RANGE"

def code : Remark → String
  | unknownOperator _ => "UNKNOWN_OPERATOR"
  | unknownInterval _ _ => "UNKNOWN_INTERVAL_REF"
  | unknownConstraint _ => "UNKNOWN_CONSTRAINT_REF"
  | unsupportedConstraint _ _ => "CONSTRAINT_NOT_SUPPORTED"
  | unreadableValue key _ => valueCode key
  | valueNotAllowed key _ _ => valueCode key
  | missingParams _ => "MISSING_PARAMS"
  | greekKeys _ => "NON_CANONICAL_PARAM_KEYS"
  | permissiveThresholds _ => "SUSPICIOUS_THRESHOLDS"
  | redundantOverlap | redundantRobustness | redundantCardinality => "REDUNDANT_CONSTRAINT"

/-- A value in a message: a text as it is, all else as JSON. -/
def shown : Json → String
  | .string text => text
  | other => other.compact

def unreadableMessage (key : ParamKey) (raw : Json) : String :=
  match key.kind with
  | .comparator => "Invalid " ++ key.latin ++ " comparator '" ++ shown raw ++ "'"
  | .threshold => key.latin ++ " must be >=0 or '∞'"
  | .amount => key.latin ++ " must be >=0"

def message : Remark → String
  | unknownOperator reference => "Unknown operatorId '" ++ reference ++ "'"
  | unknownInterval key id => key ++ " '" ++ id ++ "' not found"
  | unknownConstraint id => "constraintId '" ++ id ++ "' not found"
  | unsupportedConstraint kind reference =>
    "Constraint '" ++ kind.name ++ "' not supported by operator '" ++ reference ++ "'"
  | unreadableValue key raw => unreadableMessage key raw
  | valueNotAllowed key value reference =>
    key.latin ++ " value " ++ key.kind.text value ++ " is not allowed for operator '" ++
      reference ++ "'"
  | missingParams relation =>
    "Missing params for relation '" ++ relation ++ "' (resolver will fill defaults)"
  | greekKeys names => "Non-canonical (Greek) param keys: " ++ ", ".intercalate names
  | permissiveThresholds reference =>
    "Both delta and epsilon are ∞ (fully permissive) for '" ++ reference ++ "'"
  | redundantOverlap => "overlapPercentage=0 is redundant (no restriction)"
  | redundantRobustness => "robustness=0 is redundant (no slack)"
  | redundantCardinality => "cardinality.min=0 is redundant (no restriction)"

def issueAt (remark : Remark) (path : String) : Issue :=
  ⟨remark.severity, remark.code, path, remark.message⟩

def issue (remark : Remark) (place : Location) : Issue := remark.issueAt place.text

end Remark

/-! ### Parameters -/

/-- The parameters of a relation, none when there is not one. -/
def Relation.givenParams (r : Relation (Option AuthoredParams)) : Option AuthoredParams :=
  r.params.filter (!·.isEmpty)

/-- Advice on a relation without parameters, given the path of the relation. -/
def missingParamsIssue (relationPath id : String) : Issue :=
  (Remark.missingParams id).issueAt (Location.keyText relationPath "params")

namespace Review

/-- What is wrong with a value, for an operator if it is known. -/
def valueRemark? (op : Option Operator) (reference : String) (key : ParamKey) (raw : Json) :
    Option Remark :=
  match key.kind.read? raw with
  | none => some (.unreadableValue key raw)
  | some value =>
    if op.any fun op => !op.domains.admits key.kind value then
      some (.valueNotAllowed key value reference)
    else none

/-- A wrong value is located at the spelling that carries it. -/
def valueIssue? (op : Option Operator) (reference : String) (place : Location)
    (params : AuthoredParams) (key : ParamKey) : Option Issue :=
  (params.effective key).bind fun raw =>
    (valueRemark? op reference key raw).map fun remark =>
      remark.issue (.key (.key place "params") (params.effectiveName key))

def valueIssues (op : Option Operator) (reference : String) (place : Location)
    (params : AuthoredParams) : List Issue :=
  ParamKey.all.filterMap (valueIssue? op reference place params)

def isInfinite (params : AuthoredParams) (key : ParamKey) : Bool :=
  ((params.effective key).bind Threshold.ofJson?).any Threshold.isInfinite

/-! ### Relations -/

variable (model : AuthoredModel) (catalog : Catalog)

def operatorIssues (place : Location) (r : Relation (Option AuthoredParams)) : List Issue :=
  if (catalog.lookup? r.operator).isSome then []
  else [(Remark.unknownOperator r.operator).issue (.key place model.origin.operatorKey)]

def endIssues (place : Location) (r : Relation (Option AuthoredParams)) : List Issue :=
  [(model.origin.leftKey, r.left), (model.origin.rightKey, r.right)].filterMap fun (key, id) =>
    if (model.intervals.map (·.id)).contains id then none
    else some ((Remark.unknownInterval key id).issue (.key place key))

/-- A reference to a constraint that is not there, or that the operator does not support. -/
def referenceRemark? (r : Relation (Option AuthoredParams)) (id : String) : Option Remark :=
  match model.constraint? id with
  | none => some (.unknownConstraint id)
  | some constraint =>
    if (catalog.lookup? r.operator).any fun op => !op.compatibility.supports constraint.kind then
      some (.unsupportedConstraint constraint.kind r.operator)
    else none

def referenceIssues (place : Location) (r : Relation (Option AuthoredParams)) : List Issue :=
  r.constraintIds.zipIdx.filterMap fun (id, k) =>
    (referenceRemark? model catalog r id).map
      (·.issue (.index (.key place "constraintIds") k))

def paramIssues (place : Location) (r : Relation (Option AuthoredParams)) : List Issue :=
  match r.givenParams with
  | none => []
  | some params => valueIssues (catalog.lookup? r.operator) r.operator place params

/-- Advice that a wrong value supersedes. -/
def adviceIssues (place : Location) (r : Relation (Option AuthoredParams)) : List Issue :=
  match r.givenParams with
  | none => [missingParamsIssue place.text r.id]
  | some params =>
    if params.greekKeys.isEmpty then []
    else [(Remark.greekKeys params.greekKeys).issue (.key place "params")]

def thresholdIssues (place : Location) (r : Relation (Option AuthoredParams)) : List Issue :=
  match r.givenParams with
  | none => []
  | some params =>
    if (catalog.lookup? r.operator).isSome && isInfinite params .delta &&
        isInfinite params .epsilon then
      [(Remark.permissiveThresholds r.operator).issue place]
    else []

/-! ### Constraints -/

def redundancy? (c : Constraint) : Option Remark :=
  let isZero (key : String) : Bool :=
    ((c.field? key).bind Json.number?).any fun n => n.value = .zero
  match c.kind with
  | .overlapPercentage => if isZero "value" then some .redundantOverlap else none
  | .robustness => if isZero "value" then some .redundantRobustness else none
  | .cardinality => if isZero "min" then some .redundantCardinality else none
  | _ => none

def redundancyIssues : List Issue :=
  model.constraints.zipIdx.filterMap fun (c, i) =>
    (redundancy? c).map (·.issue (model.constraintAt i))

end Review

/-! ### The review -/

structure Review where
  errors : List Issue := []
  warnings : List Issue := []

namespace Review

/-- One relation more. Its wrong values retract the advice given beneath it so far. -/
def addRelation (model : AuthoredModel) (catalog : Catalog) (review : Review)
    (entry : Relation (Option AuthoredParams) × Nat) : Review :=
  let (r, i) := entry
  let place := model.relationAt i
  let wrong := paramIssues catalog place r
  let advice := review.warnings ++ adviceIssues place r
  let kept := if wrong.isEmpty then advice else advice.filter (!·.isWithin place.text)
  { errors := review.errors ++ operatorIssues model catalog place r ++ endIssues model place r ++
      referenceIssues model catalog place r ++ wrong
    warnings := kept ++ thresholdIssues catalog place r }

/-- Errors and warnings, each in order. -/
def ofModel (model : AuthoredModel) (catalog : Catalog) : Review :=
  let review := model.relations.zipIdx.foldl (addRelation model catalog)
    { warnings := redundancyIssues model }
  { errors := Issue.sort review.errors, warnings := Issue.sort review.warnings }

end Review
end EventPattern
