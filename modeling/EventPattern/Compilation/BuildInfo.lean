import EventPattern.Catalog.Listing

/-! What a result was built from: digests of the document and of the catalog, and the
versions of the catalog's schema and of the compiler. -/
namespace EventPattern.BuildInfo

def compilerVersion : String := "0.4.0"

/-- The digest of a document's compact text. -/
def sourceHash (input : Json) : String := Sha256.hexOfText input.compact

def text (input : Json) (catalog : Catalog) : String :=
  (Json.object [("source_hash", .string (sourceHash input)),
    ("catalog_fingerprint", .string catalog.fingerprint),
    ("catalog_schema_version", .string catalog.schemaVersion),
    ("compiler_version", .string compilerVersion)]).pretty ++ "\n"

end EventPattern.BuildInfo
