import EventPattern.Catalog.Basic
import EventPattern.Catalog.Fault

/-! Catalog files, and the catalogs that are made of them.

`Catalog.File.load` accepts a file when its parameters are readable and inside the
domains that their owner declares, all defaults that have to be there are there, ids and
codes are distinct, and every alias leads to a base operator. The order of the operators
in a file does not show in the catalog. -/
namespace EventPattern.Catalog

inductive File.Kind where
  | base
  | derived
deriving DecidableEq

structure File.Mapping where
  target : String
  fixed : Json.Fields := []

structure File.Entry where
  kind : File.Kind
  id : String
  code : String
  label : String := ""
  description : String := ""
  arity : Nat := Operator.arity
  supported : Option (List ParamKey) := none
  defaults : Json.Fields := []
  domains : Domains := {}
  compatibility : Compatibility := {}
  mapsTo : Option File.Mapping := none

structure File where
  schemaVersion : String := ""
  parameterDefaults : Json.Fields := []
  operators : List File.Entry

namespace File

/-- Lays one more field over parameters that are already read. -/
def addParam (owner : String) (domains : Domains) (params : TypedParams)
    (field : String × Json) : Except Fault TypedParams :=
  match ParamKey.ofName? field.1 with
  | none => .error (.unknownParamKey owner field.1)
  | some (key, _) =>
    match key.kind.read? field.2 with
    | none => .error (.invalidParamValue owner key field.2)
    | some value =>
      if domains.admits key.kind value then .ok (params.set key value)
      else .error (.outOfDomain owner key field.2)

/-- The parameters of an object, later spellings of a key taking the place of earlier ones. -/
def typedParams (owner : String) (domains : Domains) (fields : Json.Fields) :
    Except Fault TypedParams :=
  fields.foldlM (addParam owner domains) {}

def loadAlias (entry : Entry) : Except Fault (Option Alias) :=
  match entry.kind, entry.mapsTo with
  | .base, _ => .ok none
  | .derived, none => .error (.aliasWithoutMapping entry.id)
  | .derived, some mapping => do
    let fixed ← typedParams entry.id entry.domains mapping.fixed
    return some { target := mapping.target, fixed }

def loadOperator (entry : Entry) (position : Nat) : Except Fault Operator := do
  if entry.id = "" ∨ entry.code = "" then throw (.emptyIdentifier position)
  if entry.arity ≠ Operator.arity then throw (.invalidArity entry.id entry.arity)
  let defaults ← typedParams entry.id entry.domains entry.defaults
  let aliasOf ← loadAlias entry
  if entry.kind = .base then
    if let some key := defaults.missing.head? then throw (.missingDefault entry.id key)
  return {
    id := entry.id, code := entry.code, label := entry.label, description := entry.description
    supported := entry.supported.getD ParamKey.all, defaults, domains := entry.domains
    compatibility := entry.compatibility, aliasOf }

/-- Takes one more operator into those seen, unless its id or code is among theirs. -/
def addDistinct (seen : List Operator) (op : Operator) : Except Fault (List Operator) :=
  if seen.any (·.id == op.id) then .error (.duplicateId op.id)
  else if seen.any (·.code == op.code) then .error (.duplicateCode op.code)
  else .ok (op :: seen)

def checkAlias (c : Catalog) (op : Operator) : Except Fault Unit :=
  match op.aliasOf with
  | none => .ok ()
  | some link =>
    match c.byId? link.target with
    | none => .error (.unknownMappingTarget op.id link.target)
    | some target =>
      if target.isAlias then .error (.mappingTargetNotBase op.id link.target) else .ok ()

def load (file : File) : Except Fault Catalog := do
  let defaults ← typedParams "parameterDefaults" {} file.parameterDefaults
  if let some key := defaults.missing.head? then throw (.missingGlobalDefault key)
  let loaded ← file.operators.zipIdx.mapM fun entry => loadOperator entry.1 entry.2
  let catalog : Catalog :=
    { schemaVersion := file.schemaVersion, defaults, operators := sortOn Operator.id loaded }
  let _ ← catalog.operators.foldlM addDistinct []
  catalog.operators.forM (checkAlias catalog)
  return catalog

end File
end EventPattern.Catalog
