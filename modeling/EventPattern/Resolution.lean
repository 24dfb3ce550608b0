import EventPattern.Catalog.Basic
import EventPattern.Json.IdOrder
import EventPattern.Order

/-! Resolving a model.

A relation is rewritten to the code of its base operator and gets a value for each
parameter, from the topmost layer that has one: what the author gives, what the alias
fixes, the defaults of the base operator, those of the catalog. Everything that carries an
id is put into the order of the ids. The trail explains every decision that changed
something. -/
namespace EventPattern

/-! ### Explanations -/

structure Explanation where
  rule : String
  text : String
  target : Option String := none
  details : Json.Fields := []

namespace Explanation

def toJson (e : Explanation) : Json :=
  .record [("meta", if e.details.isEmpty then none else some (.object e.details)),
    ("ruleId", some (.string e.rule)), ("targetId", e.target.map .string),
    ("text", some (.string e.text))]

/-- No target comes before every target. -/
def sortKey (e : Explanation) : List String := [e.target.getD "", e.rule, e.text]

def sort (trail : List Explanation) : List Explanation := sortOn sortKey trail

end Explanation

/-! ### Decisions on a relation -/

inductive Decision where
  | aliasToBase (reference code : String)
  | canonicalCode (reference code : String)
  | fixedOverridden (reference : String) (key : ParamKey) (fixed value : key.Value)
  | allDefaulted (operator : String)
  | missingFilled (operator : String) (keys : List ParamKey)

namespace Decision

def rule : Decision → String
  | aliasToBase _ _ => "R-OP-ALIAS-TO-BASE"
  | canonicalCode _ _ => "R-OP-CODE-CANONICAL"
  | fixedOverridden _ _ _ _ => "R-PARAM-ALIAS-FIXED-OVERRIDDEN"
  | allDefaulted _ => "R-PARAM-DEFAULTS-ALL"
  | missingFilled _ _ => "R-PARAM-DEFAULTS-MISSING"

def text (relation : String) : Decision → String
  | aliasToBase reference code =>
    "Alias '" ++ reference ++ "' resolved to base operator '" ++ code ++ "'"
  | canonicalCode reference code =>
    "Operator id '" ++ reference ++ "' written as code '" ++ code ++ "'"
  | fixedOverridden reference key fixed value =>
    "User value " ++ key.latin ++ "=" ++ key.kind.text value ++ " overrides the value " ++
      key.kind.text fixed ++ " fixed by '" ++ reference ++ "'"
  | allDefaulted _ => "All parameters defaulted for relation '" ++ relation ++ "'"
  | missingFilled _ keys =>
    "Filled missing parameters for relation '" ++ relation ++ "': " ++
      ", ".intercalate (keys.map ParamKey.latin)

def details : Decision → Json.Fields
  | aliasToBase reference code | canonicalCode reference code =>
    [("from", .string reference), ("to", .string code)]
  | fixedOverridden _ key fixed value =>
    [("fixed", key.kind.toJson fixed), ("key", .string key.latin),
      ("value", key.kind.toJson value)]
  | allDefaulted operator => [("operatorId", .string operator)]
  | missingFilled operator keys =>
    [("missingKeys", .strings (keys.map ParamKey.latin)), ("operatorId", .string operator)]

def explain (relation : String) (d : Decision) : Explanation :=
  { rule := d.rule, text := d.text relation, target := some relation, details := d.details }

end Decision

/-! ### Relations -/

namespace Relation

variable (catalog : Catalog) (r : Relation (Option AuthoredParams))

/-- The base operator behind a relation's operator, when both are known. -/
def base? : Option Operator := (catalog.lookup? r.operator).bind catalog.base?

/-- The parameters that the relation's operator fixes, as an alias. -/
def fixedParams : TypedParams :=
  (((catalog.lookup? r.operator).bind (·.aliasOf)).map (·.fixed)).getD {}

/-- The parameters that the author gives, as far as they can be read. -/
def userParams : TypedParams := (r.params.map AuthoredParams.normalize).getD {}

/-- An unknown operator is left as it is. -/
def resolvedOperator : String := ((base? catalog r).map (·.code)).getD r.operator

def resolvedParams : TypedParams :=
  let base := ((base? catalog r).map (·.defaults)).getD {}
  ((catalog.defaults.overlay base).overlay (fixedParams catalog r)).overlay (userParams r)

def resolve : Relation TypedParams :=
  { id := r.id, left := r.left, right := r.right, operator := resolvedOperator catalog r
    params := resolvedParams catalog r, constraintIds := r.constraintIds, label := r.label }

/-! ### The decisions -/

def operatorDecisions : List Decision :=
  match catalog.lookup? r.operator, base? catalog r with
  | some op, some base =>
    if op.isAlias then [.aliasToBase r.operator base.code]
    else if r.operator ≠ base.code then [.canonicalCode r.operator base.code]
    else []
  | _, _ => []

/-- The author's value differs from the one that the alias fixes. -/
def overrideDecision? (key : ParamKey) : Option Decision :=
  match (fixedParams catalog r).get key, (userParams r).get key with
  | some fixed, some value =>
    if value ≠ fixed then some (.fixedOverridden r.operator key fixed value) else none
  | _, _ => none

def defaultDecisions : List Decision :=
  let operator := resolvedOperator catalog r
  if (userParams r).isEmpty then [.allDefaulted operator]
  else if (userParams r).isComplete then []
  else [.missingFilled operator (userParams r).missing]

def decisions : List Decision :=
  operatorDecisions catalog r ++ ParamKey.all.filterMap (overrideDecision? catalog r) ++
    defaultDecisions catalog r

def explanations : List Explanation := (decisions catalog r).map (Decision.explain r.id)

end Relation

/-! ### Models -/

def fieldsSortedById (fields : Json.Fields) : Json.Fields :=
  fields.map fun field => (field.1, field.2.sortById)

def Constraint.resolve (c : Constraint) : Constraint :=
  { c with payload := fieldsSortedById c.payload, loose := fieldsSortedById c.loose }

def AuthoredModel.resolve (model : AuthoredModel) (catalog : Catalog) : ResolvedModel :=
  { schemaVersion := model.schemaVersion, id := model.id, name := model.name
    description := model.description, intervals := sortOn Interval.id model.intervals
    relations := sortOn Relation.id (model.relations.map (Relation.resolve catalog))
    constraints := sortOn Constraint.id (model.constraints.map Constraint.resolve)
    selection := model.selection, origin := model.origin }

def AuthoredModel.trail (model : AuthoredModel) (catalog : Catalog) : List Explanation :=
  Explanation.sort (model.relations.flatMap (Relation.explanations catalog))

end EventPattern
