import EventPattern.Issue
import EventPattern.Param.Value

/-! What can be wrong with the structure of a document.

A `Finding` is a problem at a place. A check gathers them in `Checked`: parts are checked
side by side (`Checked.both`), so that a problem in one never hides a problem in another,
and only what needs a part's value waits for it (`Checked.andThen`). A check that fails has
at least one finding. -/
namespace EventPattern

inductive Problem where
  | notADocument
  | unsupportedVersion (found : Json)
  | missingField (key : String)
  | unknownField (key : String)
  | notAnObject
  | notAnArray
  | notAString
  | notATick
  | emptyText (what : String)
  | fractionalTick
  | negativeTick
  | invertedInterval
  | duplicateInterval (id : String)
  | unknownInterval (id : String)
  | notAComparator
  | negativeThreshold
  | notAThreshold
  | negativeAmount
  | notAnAmount
  | unknownParamKey (key : String)
  | unknownConstraintKind

namespace Problem

def code : Problem → String
  | notADocument => "SCHEMA_INVALID_ROOT"
  | unsupportedVersion _ => "SCHEMA_INVALID_VERSION"
  | missingField _ => "SCHEMA_MISSING_FIELD"
  | unknownField _ => "SCHEMA_UNKNOWN_FIELD"
  | notAnObject | notAnArray | notAString | notATick => "SCHEMA_INVALID_TYPE"
  | emptyText _ => "SCHEMA_EMPTY_STRING"
  | fractionalTick | negativeTick => "SCHEMA_INVALID_TICK"
  | invertedInterval => "SCHEMA_INVERTED_INTERVAL"
  | duplicateInterval _ => "SCHEMA_DUPLICATE_INTERVAL"
  | unknownInterval _ => "SCHEMA_UNKNOWN_INTERVAL"
  | notAComparator => "SCHEMA_INVALID_COMPARATOR"
  | negativeThreshold | notAThreshold => "SCHEMA_INVALID_THRESHOLD"
  | negativeAmount | notAnAmount => "SCHEMA_INVALID_RHO"
  | unknownParamKey _ => "SCHEMA_INVALID_PARAM_KEY"
  | unknownConstraintKind => "SCHEMA_INVALID_CONSTRAINT_KIND"

def message : Problem → String
  | notADocument => "document must be a JSON object"
  | unsupportedVersion found =>
    "unsupported schemaVersion " ++ found.compact ++ "; expected \"1\" or \"1.0\""
  | missingField key => "missing required field '" ++ key ++ "'"
  | unknownField key => "unknown field '" ++ key ++ "'"
  | notAnObject => "expected an object"
  | notAnArray => "expected an array"
  | notAString => "expected a string"
  | notATick => "tick must be a number"
  | emptyText what => what ++ " must be non-empty"
  | fractionalTick => "tick must be an integer"
  | negativeTick => "tick must be >= 0"
  | invertedInterval => "end must be >= start"
  | duplicateInterval id => "duplicate interval id: " ++ id
  | unknownInterval id => "unknown interval id: " ++ id
  | notAComparator => "comparator must be one of: <, ≤, =, ≥, >"
  | negativeThreshold => "threshold must be >= 0"
  | notAThreshold => "threshold must be a number or '∞'"
  | negativeAmount => "rho must be >= 0"
  | notAnAmount => "rho must be a number"
  | unknownParamKey key => ParamKey.refusal key
  | unknownConstraintKind => "constraint kind must be one of: relationParam, note"

end Problem

structure Finding where
  place : Location
  problem : Problem

def Finding.issue (f : Finding) : Issue := .error f.problem.code f.place.text f.problem.message

/-! ### Gathering findings -/

inductive Checked (α : Type) where
  | ok (value : α)
  | failed (first : Finding) (more : List Finding)

namespace Checked

variable {α β γ : Type}

def fail (place : Location) (problem : Problem) : Checked α := failed ⟨place, problem⟩ []

def findings : Checked α → List Finding
  | ok _ => []
  | failed first more => first :: more

def value? : Checked α → Option α
  | ok value => some value
  | failed _ _ => none

/-- The findings stand for themselves; without any, the check passes. -/
def report : List Finding → Checked Unit
  | [] => ok ()
  | first :: more => failed first more

def map (f : α → β) : Checked α → Checked β
  | ok value => ok (f value)
  | failed first more => failed first more

def both : Checked α → Checked β → Checked (α × β)
  | ok a, ok b => ok (a, b)
  | ok _, failed first more => failed first more
  | failed first more, other => failed first (more ++ other.findings)

def map₂ (f : α → β → γ) (a : Checked α) (b : Checked β) : Checked γ :=
  (a.both b).map fun pair => f pair.1 pair.2

/-- The findings of the first check besides the second. -/
def also (first : Checked Unit) (second : Checked α) : Checked α :=
  map₂ (fun _ value => value) first second

def andThen : Checked α → (α → Checked β) → Checked β
  | ok value, next => next value
  | failed first more, _ => failed first more

instance : Functor Checked where
  map := map

instance : Seq Checked where
  seq f x := map₂ (fun g a => g a) f (x ())

@[simp] theorem findings_map (f : α → β) (a : Checked α) : (a.map f).findings = a.findings := by
  cases a <;> rfl

/-- Nothing that one part says hides what the other says. -/
@[simp] theorem findings_both (a : Checked α) (b : Checked β) :
    (a.both b).findings = a.findings ++ b.findings := by
  cases a <;> cases b <;> rfl

@[simp] theorem findings_map₂ (f : α → β → γ) (a : Checked α) (b : Checked β) :
    (map₂ f a b).findings = a.findings ++ b.findings := by
  simp [map₂]

/-- All of them, in order. -/
def all : List (Checked α) → Checked (List α)
  | [] => ok []
  | first :: rest => map₂ (· :: ·) first (all rest)

@[simp] theorem findings_all (checks : List (Checked α)) :
    (all checks).findings = checks.flatMap findings := by
  induction checks with
  | nil => rfl
  | cons first rest ih => simp [all, ih]

end Checked
end EventPattern
