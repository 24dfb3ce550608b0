import EventPattern.Json.Printing
import EventPattern.Param.Value

/-! What can be wrong with a catalog file. -/
namespace EventPattern

inductive Catalog.Fault where
  /-- The text is no JSON, or not laid out as a catalog. -/
  | unreadable
  | duplicateId (id : String)
  | duplicateCode (code : String)
  | emptyIdentifier (position : Nat)
  | invalidArity (id : String) (arity : Nat)
  | aliasWithoutMapping (id : String)
  | unknownMappingTarget (id target : String)
  | mappingTargetNotBase (id target : String)
  | missingGlobalDefault (key : ParamKey)
  | missingDefault (id : String) (key : ParamKey)
  | unknownParamKey (owner key : String)
  | invalidParamValue (owner : String) (key : ParamKey) (value : Json)
  | outOfDomain (owner : String) (key : ParamKey) (value : Json)

def quoted (text : String) : String := "'" ++ text ++ "'"

def Catalog.Fault.message : Catalog.Fault → String
  | unreadable => "invalid catalog JSON"
  | duplicateId id => "duplicate operator id " ++ quoted id
  | duplicateCode code => "duplicate operator code " ++ quoted code
  | emptyIdentifier position =>
    "operator entry " ++ Nat.repr position ++ " has an empty id or code"
  | invalidArity id arity =>
    "operator " ++ quoted id ++ " declares arity " ++ Nat.repr arity ++ ", expected 2"
  | aliasWithoutMapping id => "alias " ++ quoted id ++ " has no base-operator mapping"
  | unknownMappingTarget id target =>
    "alias " ++ quoted id ++ " maps to unknown operator " ++ quoted target
  | mappingTargetNotBase id target =>
    "alias " ++ quoted id ++ " maps to " ++ quoted target ++ ", which is not a base operator"
  | missingGlobalDefault key => "parameterDefaults has no value for " ++ quoted key.latin
  | missingDefault id key =>
    "base operator " ++ quoted id ++ " has no default for " ++ quoted key.latin
  | unknownParamKey owner key => owner ++ ": unknown parameter key " ++ quoted key
  | invalidParamValue owner key value =>
    owner ++ ": invalid value " ++ value.compact ++ " for " ++ quoted key.latin
  | outOfDomain owner key value =>
    owner ++ ": value " ++ value.compact ++ " for " ++ quoted key.latin ++
      " is outside the declared domain"

end EventPattern
