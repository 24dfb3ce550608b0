import EventPattern.Catalog.Basic
import EventPattern.Digest.Sha256
import EventPattern.Json.Printing

/-! A catalog written down: as a listing for readers, and as canonical JSON, whose digest
tells catalogs apart. Here the fields of an object keep the order in which they are
declared. -/
namespace EventPattern

def Domains.toJson (d : Domains) : Json :=
  .object [("comparators", .strings (d.comparators.map Comparator.symbol)),
    ("thresholdMin", .number (.ofBinary64 d.thresholdMin)),
    ("allowInfinite", .bool d.allowInfinite),
    ("rhoMin", .number (.ofBinary64 d.amountMin))]

def Compatibility.toJson (c : Compatibility) : Json :=
  .object [("cardinality", .bool c.cardinality), ("overlapPercentage", .bool c.overlapPercentage),
    ("robustness", .bool c.robustness)]

def Alias.toJson (link : Alias) : Json :=
  .object [("operatorId", .string link.target), ("fixed", .object link.fixed.fields)]

namespace Operator

def toJson (op : Operator) : Json :=
  .record [("id", some (.string op.id)), ("code", some (.string op.code)),
    ("kind", some (.string op.kindName)), ("label", some (.string op.label)),
    ("description", some (.string op.description)),
    ("arity", some (.number (.int arity (by decide)))),
    ("supported", some (.strings (op.supported.map ParamKey.latin))),
    ("defaults", some (.object op.defaults.fields)), ("domains", some op.domains.toJson),
    ("compatibility", some op.compatibility.toJson), ("mapsTo", op.aliasOf.map Alias.toJson)]

/-- Code, id and kind, and for an alias the base operator. -/
def listingLine (op : Operator) : String :=
  op.code ++ " " ++ op.id ++ " " ++ op.kindName ++
    (match op.aliasOf with
      | none => ""
      | some link => " → " ++ link.target) ++ "\n"

end Operator

namespace Catalog

def listing (c : Catalog) : String := String.join (c.operators.map Operator.listingLine)

def canonicalJson (c : Catalog) : String :=
  (Json.object [("schemaVersion", .string c.schemaVersion),
    ("parameterDefaults", .object c.defaults.fields),
    ("operators", .array (c.operators.map Operator.toJson))]).compact

def fingerprint (c : Catalog) : String := Sha256.hexOfText c.canonicalJson

end Catalog
end EventPattern
