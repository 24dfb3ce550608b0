import EventPattern.Location
import EventPattern.Param.Record

/-! Event models: intervals in time, temporal relations between them, and further
constraints.

A model is the same whatever the shape of the document it comes from; its `origin` says
where its parts stand there and what the author calls them. The parameters of its
relations are authored (`AuthoredModel`) until they are resolved (`ResolvedModel`). -/
namespace EventPattern

/-- A point in time. -/
abbrev Tick := UInt64

structure Predicate where
  name : String
  args : List String := []
deriving DecidableEq

structure Interval where
  id : String
  start : Tick
  stop : Tick
  predicate : Predicate
  label : Option String := none
deriving DecidableEq

structure Relation (P : Type) where
  id : String
  left : String
  right : String
  operator : String
  params : P
  constraintIds : List String := []
  label : Option String := none

inductive ConstraintKind where
  | cardinality
  | overlapPercentage
  | robustness
  | relationParam
  | note
  | other (name : String)
deriving DecidableEq

namespace ConstraintKind

def ofName (name : String) : ConstraintKind :=
  if name = "cardinality" then cardinality
  else if name = "overlapPercentage" then overlapPercentage
  else if name = "robustness" then robustness
  else if name = "relationParam" then relationParam
  else if name = "note" then note
  else other name

def name : ConstraintKind → String
  | cardinality => "cardinality"
  | overlapPercentage => "overlapPercentage"
  | robustness => "robustness"
  | relationParam => "relationParam"
  | note => "note"
  | other name => name

def isKnown : ConstraintKind → Bool
  | other _ => false
  | _ => true

end ConstraintKind

/-- A constraint that is no temporal relation. -/
structure Constraint where
  id : String
  kind : ConstraintKind
  payload : Json.Fields := []
  /-- Fields that stand beside the payload. -/
  loose : Json.Fields := []

/-- A field of the payload or, failing that, one beside it. -/
def Constraint.field? (c : Constraint) (key : String) : Option Json :=
  (c.payload.get? key).or (c.loose.get? key)

/-- The relations that make up the pattern, in order; none stands for all. -/
structure Selection where
  ids : List String := []
deriving DecidableEq

structure Origin where
  relations : Location
  constraints : Location
  leftKey : String
  rightKey : String
  operatorKey : String
deriving DecidableEq

/-- The origin of a model that is given as such. -/
def Origin.plain : Origin where
  relations := .key .root "expressions"
  constraints := .key .root "constraints"
  leftKey := "leftIntervalId"
  rightKey := "rightIntervalId"
  operatorKey := "operatorId"

structure Model (P : Type) where
  schemaVersion : String
  id : String
  name : Option String := none
  description : Option String := none
  intervals : List Interval := []
  relations : List (Relation P) := []
  constraints : List Constraint := []
  selection : Option Selection := none
  origin : Origin := .plain

abbrev AuthoredModel := Model (Option AuthoredParams)

abbrev ResolvedModel := Model TypedParams

namespace Model

variable {P : Type}

/-- The first interval of an id. -/
def interval? (model : Model P) (id : String) : Option Interval :=
  model.intervals.find? (·.id == id)

/-- The first relation of an id. -/
def relation? (model : Model P) (id : String) : Option (Relation P) :=
  model.relations.find? (·.id == id)

/-- The first constraint of an id. -/
def constraint? (model : Model P) (id : String) : Option Constraint :=
  model.constraints.find? (·.id == id)

def relationAt (model : Model P) (i : Nat) : Location := .index model.origin.relations i

def constraintAt (model : Model P) (i : Nat) : Location := .index model.origin.constraints i

end Model
end EventPattern
