import EventPattern.Model.Basic

/-! Documents: event models as authors write them, in one of two shapes.

The canonical shape keeps relations and constraints apart; the legacy shape keeps both
under its constraints and names the parts of a relation differently. -/
namespace EventPattern

/-! ### The legacy shape -/

structure LegacyRelation where
  id : String
  left : String
  right : String
  operator : String
  params : Option AuthoredParams := none
  allenAlias : Option String := none
  constraintIds : List String := []

structure LegacyConstraint where
  id : String
  kind : String
  payload : Json.Fields := []

structure LegacyDocument where
  id : String
  name : String
  description : Option String := none
  createdAt : Option String := none
  updatedAt : Option String := none
  intervals : List Interval
  relations : List LegacyRelation := []
  constraints : List LegacyConstraint := []
  selection : Option Selection := none

/-! ### The canonical shape -/

inductive CanonicalConstraint where
  | relationParam (id relationId : String) (key : ParamKey) (value : Json)
  | note (id text : String)

def CanonicalConstraint.id : CanonicalConstraint → String
  | relationParam id _ _ _ => id
  | note id _ => id

structure CanonicalDocument where
  id : String
  name : String
  description : Option String := none
  createdAt : Option String := none
  intervals : List Interval
  relations : List (Relation (Option AuthoredParams)) := []
  constraints : List CanonicalConstraint := []
  selection : Option Selection := none

/-! ### Documents -/

inductive Document where
  | legacy (doc : LegacyDocument)
  | canonical (doc : CanonicalDocument)

namespace Document

def legacyVersion : String := "1"

def canonicalVersion : String := "1.0"

def version : Document → String
  | legacy _ => legacyVersion
  | canonical _ => canonicalVersion

def id : Document → String
  | legacy doc => doc.id
  | canonical doc => doc.id

def origin : Document → Origin
  | legacy _ =>
    { relations := .key (.key .root "constraints") "temporal"
      constraints := .key (.key .root "constraints") "extra"
      leftKey := "leftIntervalId", rightKey := "rightIntervalId", operatorKey := "operatorKey" }
  | canonical _ =>
    { relations := .key .root "relations"
      constraints := .key (.key .root "constraints") "constraints"
      leftKey := "left", rightKey := "right", operatorKey := "operatorId" }

/-- The relations' ids and parameters. -/
def relationParams : Document → List (String × Option AuthoredParams)
  | legacy doc => doc.relations.map fun r => (r.id, r.params)
  | canonical doc => doc.relations.map fun r => (r.id, r.params)

def constraintIds : Document → List String
  | legacy doc => doc.constraints.map (·.id)
  | canonical doc => doc.constraints.map (·.id)

end Document
end EventPattern
