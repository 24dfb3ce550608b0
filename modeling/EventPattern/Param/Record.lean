import EventPattern.Param.Value
import EventPattern.Order

/-! Records with one optional entry for each parameter.

`TypedParams` holds values, `AuthoredParams` what the author wrote under each spelling,
of which the Latin one counts. `normalize` leads from the second to the first, and layers
of typed parameters are laid over one another by `overlay`. A record is determined by its
entries (`ParamRecord.ext_get`), and each operation is described by the entries of its
result. -/
namespace EventPattern

@[ext] structure ParamRecord (α : ParamKey → Type) where
  zeta : Option (α .zeta) := none
  eta : Option (α .eta) := none
  delta : Option (α .delta) := none
  epsilon : Option (α .epsilon) := none
  rho : Option (α .rho) := none

namespace ParamRecord

variable {α : ParamKey → Type}

def get (r : ParamRecord α) : (key : ParamKey) → Option (α key)
  | .zeta => r.zeta
  | .eta => r.eta
  | .delta => r.delta
  | .epsilon => r.epsilon
  | .rho => r.rho

def ofFn (f : (key : ParamKey) → Option (α key)) : ParamRecord α :=
  ⟨f .zeta, f .eta, f .delta, f .epsilon, f .rho⟩

def set (r : ParamRecord α) : (key : ParamKey) → α key → ParamRecord α
  | .zeta, v => { r with zeta := some v }
  | .eta, v => { r with eta := some v }
  | .delta, v => { r with delta := some v }
  | .epsilon, v => { r with epsilon := some v }
  | .rho, v => { r with rho := some v }

@[simp] theorem get_ofFn (f : (key : ParamKey) → Option (α key)) (key : ParamKey) :
    (ofFn f).get key = f key := by
  cases key <;> rfl

theorem ext_get {r s : ParamRecord α} (h : ∀ key, r.get key = s.get key) : r = s :=
  ParamRecord.ext (h .zeta) (h .eta) (h .delta) (h .epsilon) (h .rho)

instance [∀ key, DecidableEq (α key)] : DecidableEq (ParamRecord α) := fun r s =>
  decidable_of_iff
    (r.zeta = s.zeta ∧ r.eta = s.eta ∧ r.delta = s.delta ∧ r.epsilon = s.epsilon ∧ r.rho = s.rho)
    ⟨fun ⟨h₁, h₂, h₃, h₄, h₅⟩ => ParamRecord.ext h₁ h₂ h₃ h₄ h₅,
      fun h => by subst h; exact ⟨rfl, rfl, rfl, rfl, rfl⟩⟩

/-- Every entry of `top` takes the place of the one in `base`. -/
def overlay (base top : ParamRecord α) : ParamRecord α :=
  ofFn fun key => (top.get key).or (base.get key)

@[simp] theorem get_overlay (base top : ParamRecord α) (key : ParamKey) :
    (base.overlay top).get key = (top.get key).or (base.get key) :=
  get_ofFn _ key

/-- The keys without an entry. -/
def missing (r : ParamRecord α) : List ParamKey :=
  ParamKey.all.filter fun key => (r.get key).isNone

/-- The keys with an entry. -/
def present (r : ParamRecord α) : List ParamKey :=
  ParamKey.all.filter fun key => (r.get key).isSome

def isComplete (r : ParamRecord α) : Bool := r.missing.isEmpty

theorem isComplete_iff (r : ParamRecord α) : r.isComplete ↔ ∀ key, (r.get key).isSome := by
  simp only [isComplete, missing, List.isEmpty_iff, List.filter_eq_nil_iff]
  refine ⟨fun h key => ?_, fun h key _ => ?_⟩
  · have hk := h key (by cases key <;> decide)
    cases hg : r.get key <;> simp_all
  · simp [Option.isSome_iff_ne_none.mp (h key)]

def isEmpty (r : ParamRecord α) : Bool := r.present.isEmpty

end ParamRecord

/-! ### Typed parameters -/

abbrev TypedParams := ParamRecord ParamKey.Value

namespace TypedParams

/-- The value of a key in JSON, under its Latin spelling. -/
def field (params : TypedParams) (key : ParamKey) : String × Option Json :=
  (key.latin, (params.get key).map key.kind.toJson)

/-- The fields in the order of the keys. -/
def fields (params : TypedParams) : List (String × Json) :=
  ParamKey.all.filterMap fun key => (params.get key).map fun v => (key.latin, key.kind.toJson v)

def toJson (params : TypedParams) : Json :=
  .record (([.delta, .epsilon, .eta, .rho, .zeta] : List ParamKey).map params.field)

/-- The entry of one key: under either spelling, not both; `null` is no entry. -/
def readEntry? (fields : Json.Fields) (key : ParamKey) : Option (Option key.Value) :=
  match fields.get? key.latin, fields.get? key.greek with
  | some _, some _ => none
  | none, none | some .null, none | none, some .null => some none
  | some json, none | none, some json => (key.kind.readAny? json).map some

def ofJson? (json : Json) : Option TypedParams := do
  let fields ← json.recordFields? (ParamKey.all.map ParamKey.latin)
  let zeta ← readEntry? fields .zeta
  let eta ← readEntry? fields .eta
  let delta ← readEntry? fields .delta
  let epsilon ← readEntry? fields .epsilon
  let rho ← readEntry? fields .rho
  some { zeta, eta, delta, epsilon, rho }

end TypedParams

/-! ### Authored parameters -/

structure AuthoredParams where
  latin : ParamRecord fun _ => Json := {}
  greek : ParamRecord fun _ => Json := {}

namespace AuthoredParams

def ofFields (fields : Json.Fields) : AuthoredParams where
  latin := .ofFn fun key => fields.get? key.latin
  greek := .ofFn fun key => fields.get? key.greek

/-- The keys of an object that name no parameter. -/
def unknownKeys (fields : Json.Fields) : List String :=
  (fields.map (·.1)).filter fun name => (ParamKey.ofName? name).isNone

def isEmpty (params : AuthoredParams) : Bool := params.latin.isEmpty && params.greek.isEmpty

/-- What counts as written for a key: the Latin spelling before the Greek one. -/
def effective (params : AuthoredParams) (key : ParamKey) : Option Json :=
  (params.latin.get key).or (params.greek.get key)

/-- The spelling under which the effective value is written. -/
def effectiveName (params : AuthoredParams) (key : ParamKey) : String :=
  if (params.latin.get key).isSome then key.latin else key.greek

/-- The Greek spellings in use, in alphabetical order. -/
def greekKeys (params : AuthoredParams) : List String :=
  sortOn (fun name => name) (params.greek.present.map ParamKey.greek)

/-- The values that can be read; the others leave their place to lower layers. -/
def normalize (params : AuthoredParams) : TypedParams :=
  .ofFn fun key => (params.effective key).bind key.kind.read?

def ofTyped (params : TypedParams) : AuthoredParams where
  latin := .ofFn fun key => (params.get key).map key.kind.toJson

def toJson (params : AuthoredParams) : Json :=
  let keys : List ParamKey := [.delta, .epsilon, .eta, .rho, .zeta]
  let greekKeys : List ParamKey := [.delta, .epsilon, .zeta, .eta, .rho]
  .record (keys.map (fun key => (key.latin, params.latin.get key)) ++
    greekKeys.map (fun key => (key.greek, params.greek.get key)))

end AuthoredParams
end EventPattern
