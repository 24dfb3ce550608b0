import EventPattern.Model.Basic

/-! Operator catalogs.

An operator is a base operator or an alias, which stands for a base operator with some
parameters fixed. A reference names an operator by its code or, failing that, by its id;
`base?` leads from an operator to the base operator it is written as.

A catalog gives every parameter a default in layers: its own defaults, overlaid with the
defaults of the operator. -/
namespace EventPattern

/-- The values that an operator allows for its parameters. -/
structure Domains where
  comparators : List Comparator := Comparator.all
  thresholdMin : Binary64 := .zero
  allowInfinite : Bool := true
  amountMin : Binary64 := .zero
deriving DecidableEq

def Domains.admits (d : Domains) : (kind : ParamKind) → kind.Value → Bool
  | .comparator, c => d.comparators.contains c
  | .threshold, .infinite => d.allowInfinite
  | .threshold, .finite bound _ => d.thresholdMin ≤ bound
  | .amount, x => d.amountMin ≤ x

/-- The kinds of further constraints that an operator allows. -/
structure Compatibility where
  cardinality : Bool := false
  overlapPercentage : Bool := false
  robustness : Bool := false
deriving DecidableEq

/-- A kind that has no flag is always supported. -/
def Compatibility.supports (c : Compatibility) : ConstraintKind → Bool
  | .cardinality => c.cardinality
  | .overlapPercentage => c.overlapPercentage
  | .robustness => c.robustness
  | _ => true

structure Alias where
  /-- The id of the base operator. -/
  target : String
  fixed : TypedParams
deriving DecidableEq

structure Operator where
  id : String
  code : String
  label : String := ""
  description : String := ""
  supported : List ParamKey := ParamKey.all
  defaults : TypedParams := {}
  domains : Domains := {}
  compatibility : Compatibility := {}
  aliasOf : Option Alias := none
deriving DecidableEq

namespace Operator

/-- Every operator relates two intervals. -/
def arity : Nat := 2

def isAlias (op : Operator) : Bool := op.aliasOf.isSome

def kindName (op : Operator) : String := if op.isAlias then "alias" else "base"

end Operator

structure Catalog where
  schemaVersion : String
  defaults : TypedParams
  /-- Ascending by id. -/
  operators : List Operator
deriving DecidableEq

namespace Catalog

def byId? (c : Catalog) (id : String) : Option Operator := c.operators.find? (·.id == id)

def byCode? (c : Catalog) (code : String) : Option Operator := c.operators.find? (·.code == code)

/-- The operator that a reference names: by code first, then by id. -/
def lookup? (c : Catalog) (reference : String) : Option Operator :=
  (c.byCode? reference).or (c.byId? reference)

/-- The base operator behind an operator, itself when it is no alias. -/
def base? (c : Catalog) (op : Operator) : Option Operator :=
  match op.aliasOf with
  | none => some op
  | some link => c.byId? link.target

/-- The id of the base operator of the alias with an id. -/
def aliasBase? (c : Catalog) (id : String) : Option String :=
  (c.byId? id).bind fun op => op.aliasOf.map (·.target)

def defaultsOf (c : Catalog) (op : Operator) : TypedParams := c.defaults.overlay op.defaults

end Catalog
end EventPattern
