import EventPattern.Catalog.File

/-! The catalog that is used when none is given: nine base operators, and the thirteen
relations of Allen's interval algebra as aliases of them. -/
namespace EventPattern.Catalog.Embedded

def zero : Json := .number (.int 0 (by decide))

def unbounded : Json := .string Threshold.infinitySign

def params (bound : Json) : Json.Fields :=
  [("delta", bound), ("epsilon", bound), ("eta", .string "≤"), ("rho", zero), ("zeta", .string "≤")]

/-- Relations that do not overlap have no overlap to restrict. -/
def apart : Compatibility := { cardinality := true, robustness := true }

def overlapping : Compatibility :=
  { cardinality := true, overlapPercentage := true, robustness := true }

def base (id code label description : String) (compatibility : Compatibility)
    (bound : Json) : File.Entry :=
  { kind := .base, id, code, label, description, compatibility, defaults := params bound }

def allen (id code name target : String) (compatibility : Compatibility)
    (zeroed : List String) : File.Entry :=
  { kind := .derived, id := "allen_" ++ id, code := "Allen." ++ code, label := "Allen: " ++ name
    description :=
      "Allen relation '" ++ name ++ "' expressed through the " ++ target ++ " base operator."
    compatibility
    mapsTo := some { target, fixed := zeroed.map fun key => (key, zero) } }

def bases : List File.Entry := [
  base "bef" "Bef" "Before"
    "Left interval ends before right interval starts, within a gap of at most δ."
    apart unbounded,
  base "aft" "Aft" "After"
    "Left interval starts after right interval ends, within a gap of at most δ."
    apart unbounded,
  base "loj" "LOJ" "Left overlap join"
    "Left interval starts first and the two overlap; start shift bounded by δ, end shift by ε."
    overlapping unbounded,
  base "roj" "ROJ" "Right overlap join"
    "Right interval starts first and the two overlap; start shift bounded by δ, end shift by ε."
    overlapping unbounded,
  base "dj" "DJ" "During join"
    "Left interval lies within right interval; start margin bounded by δ, end margin by ε."
    overlapping unbounded,
  base "rdj" "RDJ" "Reverse during join"
    "Right interval lies within left interval; start margin bounded by δ, end margin by ε."
    overlapping unbounded,
  base "sp" "SP" "Start preceding"
    "Left interval starts no later than right interval and they overlap; start shift bounded by δ."
    overlapping unbounded,
  base "ef" "EF" "End following"
    "Left interval ends no earlier than right interval and they overlap; end shift bounded by ε."
    overlapping unbounded,
  base "eq" "Eq" "Equals" "Both intervals share start and end, up to δ and ε." overlapping zero]

def aliases : List File.Entry := [
  allen "before" "Before" "before" "bef" apart [],
  allen "after" "After" "after" "aft" apart [],
  allen "meets" "Meets" "meets" "bef" apart ["delta"],
  allen "met_by" "MetBy" "met by" "aft" apart ["delta"],
  allen "overlaps" "Overlaps" "overlaps" "loj" overlapping [],
  allen "overlapped_by" "OverlappedBy" "overlapped by" "roj" overlapping [],
  allen "during" "During" "during" "dj" overlapping [],
  allen "contains" "Contains" "contains" "rdj" overlapping [],
  allen "starts" "Starts" "starts" "sp" overlapping ["delta"],
  allen "started_by" "StartedBy" "started by" "rdj" overlapping ["delta"],
  allen "finishes" "Finishes" "finishes" "ef" overlapping ["epsilon"],
  allen "finished_by" "FinishedBy" "finished by" "rdj" overlapping ["epsilon"],
  allen "equals" "Equals" "equals" "eq" overlapping ["delta", "epsilon"]]

def file : File :=
  { schemaVersion := "1.0", parameterDefaults := params unbounded, operators := bases ++ aliases }

end Embedded

/-- The embedded file is well formed, so the catalog is never the empty one. -/
def embedded : Catalog :=
  match Embedded.file.load with
  | .ok catalog => catalog
  | .error _ => { schemaVersion := "", defaults := {}, operators := [] }

end EventPattern.Catalog
