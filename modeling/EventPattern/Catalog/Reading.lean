import EventPattern.Catalog.File
import EventPattern.Json.Reading

/-! Catalog files as JSON text.

The layout is read straight off the text: a field that the layout does not know is passed
over unread, and one that it knows must not be repeated. Only the parameter objects are
free-form. -/
namespace EventPattern.Catalog.File

open Json (Tree)

/-! ### Fields of a fixed layout -/

/-- The fields of an object, of which the known ones occur once, or of an array of the known
ones in their order. -/
def layout? (known : List String) : Tree → Option (List (String × Tree))
  | .object entries => do
    let fields ← entries.mapM fun entry =>
      (Json.stringOfRaw? entry.1).map fun key => (key, entry.2)
    let keys := (fields.map (·.1)).filter known.contains
    if keys.Nodup then some fields else none
  | .array items => if items.length ≤ known.length then some (known.zip items) else none
  | _ => none

variable {α : Type}

def required (fields : List (String × Tree)) (key : String) (read : Tree → Option α) : Option α :=
  (fields.lookup key).bind read

def defaulting (fields : List (String × Tree)) (key : String) (default : α)
    (read : Tree → Option α) : Option α :=
  match fields.lookup key with
  | none => some default
  | some tree => read tree

/-- An optional value, for which `null` is the same as none. -/
def nullable (read : Tree → Option α) : Tree → Option (Option α)
  | .null => some none
  | tree => (read tree).map some

/-! ### Values -/

def string? : Tree → Option String
  | .string raw => Json.stringOfRaw? raw
  | _ => none

def bool? : Tree → Option Bool
  | .bool b => some b
  | _ => none

def number? : Tree → Option Number
  | .number lexeme => (Json.Numeral.ofLexeme? lexeme).bind Json.Numeral.number?
  | _ => none

def listOf (read : Tree → Option α) : Tree → Option (List α)
  | .array items => items.mapM read
  | _ => none

/-- A free-form object inside `open` brackets of the layout. -/
def freeForm (openBrackets : Nat) (tree : Tree) : Option Json.Fields :=
  (tree.value? (Json.maxDepth - openBrackets)).bind Json.object?

def comparator? (tree : Tree) : Option Comparator := (string? tree).bind Comparator.ofText?

def paramKey? (tree : Tree) : Option ParamKey :=
  (string? tree).bind fun name => (ParamKey.ofName? name).map (·.1)

def kindOfName? (name : String) : Option Kind :=
  if name = "base" ∨ name = "operator" then some .base
  else if name = "alias" then some .derived
  else none

/-- The name of the kind, or the name with nothing attached to it. -/
def kind? : Tree → Option Kind
  | .string raw => (Json.stringOfRaw? raw).bind kindOfName?
  | .object [(raw, .null)] => (Json.stringOfRaw? raw).bind kindOfName?
  | _ => none

/-! ### The parts of a file -/

def domains? (tree : Tree) : Option Domains := do
  let fields ← layout? ["comparators", "thresholdMin", "allowInfinite", "rhoMin"] tree
  let number (key : String) : Option Binary64 :=
    defaulting fields key .zero fun tree => (number? tree).map Number.value
  let comparators ← defaulting fields "comparators" Comparator.all (listOf comparator?)
  let thresholdMin ← number "thresholdMin"
  let allowInfinite ← defaulting fields "allowInfinite" true bool?
  let amountMin ← number "rhoMin"
  some { comparators, thresholdMin, allowInfinite, amountMin }

def compatibility? (tree : Tree) : Option Compatibility := do
  let fields ← layout? ["cardinality", "overlapPercentage", "robustness"] tree
  let flag (key : String) : Option Bool := defaulting fields key false bool?
  let cardinality ← flag "cardinality"
  let overlapPercentage ← flag "overlapPercentage"
  let robustness ← flag "robustness"
  some { cardinality, overlapPercentage, robustness }

def mapping? (tree : Tree) : Option Mapping := do
  let fields ← layout? ["operatorId", "fixed"] tree
  let target ← required fields "operatorId" string?
  let fixed ← defaulting fields "fixed" [] (freeForm 4)
  some { target, fixed }

structure Parameters where
  supported : Option (List ParamKey) := none
  defaults : Json.Fields := []
  domains : Domains := {}

def parameters? (tree : Tree) : Option Parameters := do
  let fields ← layout? ["supported", "defaults", "domains"] tree
  let supported ← defaulting fields "supported" none (nullable (listOf paramKey?))
  let defaults ← defaulting fields "defaults" [] (freeForm 4)
  let domains ← defaulting fields "domains" {} domains?
  some { supported, defaults, domains }

def entryFields : List String :=
  ["kind", "id", "code", "label", "description", "arity", "parameters", "constraintCompatibility",
    "mapsTo"]

/-- An entry that is written as an array leaves no field out. -/
def isWholeEntry : Tree → Bool
  | .array items => items.length = entryFields.length
  | _ => true

def entry? (tree : Tree) : Option Entry := do
  guard (isWholeEntry tree)
  let fields ← layout? entryFields tree
  let kind ← required fields "kind" kind?
  let id ← required fields "id" string?
  let code ← required fields "code" string?
  let label ← defaulting fields "label" "" string?
  let description ← defaulting fields "description" "" string?
  let arity ← defaulting fields "arity" Operator.arity fun tree =>
    ((number? tree).bind Number.toUInt64?).map UInt64.toNat
  let parameters ← defaulting fields "parameters" {} parameters?
  let compatibility ← defaulting fields "constraintCompatibility" {} compatibility?
  let mapsTo ← defaulting fields "mapsTo" none (nullable mapping?)
  some {
    kind, id, code, label, description, arity, supported := parameters.supported
    defaults := parameters.defaults, domains := parameters.domains, compatibility, mapsTo }

def ofTree? (tree : Tree) : Option File := do
  let fields ← layout? ["schemaVersion", "parameterDefaults", "operators"] tree
  let schemaVersion ← defaulting fields "schemaVersion" "" string?
  let parameterDefaults ← defaulting fields "parameterDefaults" [] (freeForm 1)
  let operators ← required fields "operators" (listOf entry?)
  some { schemaVersion, parameterDefaults, operators }

def ofText? (text : String) : Option File := (Json.tree? text).bind ofTree?

end File

/-- The catalog of a text. -/
def ofText (text : String) : Except Fault Catalog :=
  match File.ofText? text with
  | none => .error .unreadable
  | some file => file.load

end EventPattern.Catalog
