import EventPattern.Proofs.Document.Written

/-! Typed parameters and their ways back from JSON.

Parameters are written by two writers, as typed ones and as what an author would write, and both
write the same object (`TypedParams.toJson_ofTyped`). An object of parameters has two readers.
The strict one, `TypedParams.ofJson?`, refuses a key in both spellings and a value of another kind,
takes `null` for an absent entry and does not mind a negative amount. The lenient one,
`AuthoredParams.ofFields` with `normalize` after it, refuses nothing, lets the Latin spelling count
and drops what it cannot read, a negative amount included.

What the strict reader takes for a key counts for the lenient one as well
(`TypedParams.effective_of_entry`), so the two can only differ in what they make of the amount.
`parameters_survive` says that every way back leads to the same record exactly if the amount, where
there is one, is not negative. -/
namespace EventPattern

/-! ### Single values -/

namespace ParamKind

variable {kind : ParamKind}

theorem readAny?_null : kind.readAny? .null = none := by
  cases kind <;> rfl

theorem toJson_ne_null (value : kind.Value) : kind.toJson value ≠ .null := by
  intro h
  have hread := readAny?_toJson value
  rw [h, readAny?_null] at hread
  cases hread

end ParamKind

/-- Only the amount of a record can be a value that is not in its domain. -/
theorem TypedParams.readable_iff (params : TypedParams) :
    params.Readable ↔ ∀ amount : Binary64, params.rho = some amount → .zero ≤ amount := by
  constructor
  · intro h amount hamount
    exact h .rho amount hamount
  · intro h key value hvalue
    cases key with
    | rho => exact h value hvalue
    | _ => trivial

/-! ### The lenient reader -/

namespace AuthoredParams

theorem effective_ofFields (fields : Json.Fields) (key : ParamKey) :
    (ofFields fields).effective key = (fields.get? key.latin).or (fields.get? key.greek) := by
  rw [effective, get_latin_ofFields, get_greek_ofFields]

theorem normalize_ofTyped_eq_iff (params : TypedParams) :
    (ofTyped params).normalize = params ↔ params.Readable := by
  constructor
  · intro h
    rw [← h]
    exact readable_normalize _
  · exact normalize_ofTyped

end AuthoredParams

/-! ### The strict reader -/

namespace TypedParams

variable {fields : Json.Fields} {params : TypedParams}

theorem ofJson?_eq_some_iff :
    ofJson? (.object fields) = some params ↔
      ∀ key, readEntry? fields key = some (params.get key) := by
  simp only [ofJson?, Json.recordFields?, Option.bind_eq_bind, Option.bind_some,
    Option.bind_eq_some_iff, Option.some.injEq]
  constructor
  · rintro ⟨zeta, hzeta, eta, heta, delta, hdelta, epsilon, hepsilon, rho, hrho, rfl⟩ key
    cases key with
    | zeta => exact hzeta
    | eta => exact heta
    | delta => exact hdelta
    | epsilon => exact hepsilon
    | rho => exact hrho
  · intro h
    exact ⟨_, h .zeta, _, h .eta, _, h .delta, _, h .epsilon, _, h .rho, rfl⟩

/-- Of a key that is not refused at most one spelling is there, and what it says is what counts. -/
theorem effective_of_entry {key : ParamKey} {entry : Option key.Value}
    (h : readEntry? fields key = some entry) :
    ((AuthoredParams.ofFields fields).effective key).bind key.kind.readAny? = entry := by
  rw [AuthoredParams.effective_ofFields]
  unfold readEntry? at h
  split at h
  case h_1 => cases h
  case h_2 hlatin hgreek =>
    cases h
    rw [hlatin, hgreek]
    rfl
  -- A `null` counts for the lenient reader, which then cannot read it.
  case h_3 hlatin hgreek | h_4 hlatin hgreek =>
    cases h
    rw [hlatin, hgreek]
    exact ParamKind.readAny?_null
  case h_5 hlatin hgreek | h_6 hlatin hgreek =>
    obtain ⟨value, hvalue, rfl⟩ := Option.map_eq_some_iff.mp h
    rw [hlatin, hgreek]
    exact hvalue

theorem get_normalize_iff (h : ofJson? (.object fields) = some params) (key : ParamKey)
    (value : key.Value) :
    (AuthoredParams.ofFields fields).normalize.get key = some value ↔
      params.get key = some value ∧ key.kind.Readable value := by
  rw [← effective_of_entry (ofJson?_eq_some_iff.mp h key), AuthoredParams.get_normalize]
  cases (AuthoredParams.ofFields fields).effective key with
  | none => exact ⟨nofun, nofun⟩
  | some json => exact ParamKind.read?_eq_some_iff

/-- **The readers agree on what the strict one takes**, as long as its values are in their
domains. -/
theorem normalize_ofFields_eq_iff (h : ofJson? (.object fields) = some params) :
    (AuthoredParams.ofFields fields).normalize = params ↔ params.Readable := by
  constructor
  · intro hsame
    rw [← hsame]
    exact AuthoredParams.readable_normalize _
  · intro hreadable
    refine ParamRecord.ext_get fun key => Option.ext fun value => ?_
    rw [get_normalize_iff h key value]
    exact and_iff_left_of_imp (hreadable key value)

/-! ### Written and read -/

variable (params)

/-- The fields of the keys of a list, in its order. -/
def fieldsOf (order : List ParamKey) : Json.Fields := Json.Fields.present (order.map params.field)

theorem toJson_eq : params.toJson = .object (params.fieldsOf [.delta, .epsilon, .eta, .rho, .zeta]) :=
  rfl

/-- What an author would write is written as the parameters are. -/
theorem toJson_ofTyped : (AuthoredParams.ofTyped params).toJson = params.toJson := by
  rw [Document.toJson_params_of_latin (AuthoredParams.get_greek_ofTyped params)]
  rfl

theorem fields_eq : params.fields = params.fieldsOf ParamKey.all := by
  rw [fields, fieldsOf, Json.Fields.present, List.filterMap_map]
  refine List.filterMap_congr fun key _ => ?_
  rw [Function.comp_apply, field, Option.map_map]
  rfl

theorem get?_latin_fieldsOf (order : List ParamKey) (key : ParamKey) :
    (params.fieldsOf order).get? key.latin =
      if key ∈ order then (params.get key).map key.kind.toJson else none := by
  induction order with
  | nil => rfl
  | cons other rest ih =>
    rw [fieldsOf, List.map_cons, field, Json.Fields.get?_present_cons, ← fieldsOf, ih]
    by_cases hsame : other = key
    · subst hsame
      rw [if_pos rfl, if_pos (List.mem_cons_self ..)]
      cases params.get other with
      | none => split <;> rfl
      | some value => rfl
    · rw [if_neg (ParamKey.latin_injective.ne hsame)]
      simp only [List.mem_cons, Ne.symm hsame, false_or]

theorem exists_latin_of_mem_fieldsOf {order : List ParamKey} {field : String × Json}
    (h : field ∈ params.fieldsOf order) : ∃ key : ParamKey, field.1 = key.latin := by
  obtain ⟨declared, hdeclared, hname⟩ := List.mem_map.mp (Json.Fields.key_mem_of_mem_present h)
  obtain ⟨key, -, rfl⟩ := List.mem_map.mp hdeclared
  exact ⟨key, hname.symm⟩

theorem get?_greek_fieldsOf (order : List ParamKey) (key : ParamKey) :
    (params.fieldsOf order).get? key.greek = none := by
  rw [Option.eq_none_iff_forall_ne_some]
  intro json hjson
  obtain ⟨other, hname⟩ := params.exists_latin_of_mem_fieldsOf (Json.Fields.mem_of_get? hjson)
  have hspelled := congrArg ParamKey.ofName? hname
  rw [key.ofName?_greek, other.ofName?_latin] at hspelled
  cases hspelled

theorem unknownKeys_fieldsOf (order : List ParamKey) :
    AuthoredParams.unknownKeys (params.fieldsOf order) = [] := by
  refine List.filter_eq_nil_iff.mpr fun name hname => ?_
  obtain ⟨field, hfield, rfl⟩ := List.mem_map.mp hname
  obtain ⟨key, hkey⟩ := params.exists_latin_of_mem_fieldsOf hfield
  rw [hkey, key.ofName?_latin]
  exact Bool.false_ne_true

section Complete
variable {order : List ParamKey} (horder : ∀ key, key ∈ order)
include horder

/-- **Typed parameters are read as they were written**, whatever their amount. -/
theorem ofJson?_fieldsOf : ofJson? (.object (params.fieldsOf order)) = some params := by
  refine ofJson?_eq_some_iff.mpr fun key => ?_
  have hlatin := params.get?_latin_fieldsOf order key
  have hgreek := params.get?_greek_fieldsOf order key
  rw [if_pos (horder key)] at hlatin
  unfold readEntry?
  cases hvalue : params.get key with
  | none =>
    rw [hvalue, Option.map_none] at hlatin
    simp only [hlatin, hgreek]
  | some value =>
    rw [hvalue, Option.map_some] at hlatin
    -- What is written is never `null`, which would be read as no entry.
    have hnull : key.kind.toJson value ≠ .null := ParamKind.toJson_ne_null value
    simp only [hlatin, hgreek, ParamKind.readAny?_toJson, Option.map_some]

theorem normalize_fieldsOf (h : params.Readable) :
    (AuthoredParams.ofFields (params.fieldsOf order)).normalize = params :=
  (normalize_ofFields_eq_iff (params.ofJson?_fieldsOf horder)).mpr h

end Complete

/-! ### Every way back -/

/-- Either reader reads the parameters off an object, and none of its keys is unknown. -/
structure ReadFrom (fields : Json.Fields) : Prop where
  deserialized : ofJson? (.object fields) = some params
  known : AuthoredParams.unknownKeys fields = []
  normalized : (AuthoredParams.ofFields fields).normalize = params

/-- The parameters are what each way through JSON leads back to. -/
structure Survives : Prop where
  /-- Handed out as what an author would write. -/
  authored : (AuthoredParams.ofTyped params).normalize = params
  /-- Written, as they are or as what an author would write. -/
  written : ∃ fields, params.toJson = .object fields ∧
    (AuthoredParams.ofTyped params).toJson = .object fields ∧ params.ReadFrom fields
  /-- Listed in the order of the keys. -/
  listed : params.ReadFrom params.fields

variable {params}

theorem Readable.readFrom (h : params.Readable) {order : List ParamKey}
    (horder : ∀ key, key ∈ order) : params.ReadFrom (params.fieldsOf order) :=
  ⟨params.ofJson?_fieldsOf horder, params.unknownKeys_fieldsOf order,
    params.normalize_fieldsOf horder h⟩

theorem Readable.survives (h : params.Readable) : params.Survives where
  authored := AuthoredParams.normalize_ofTyped h
  written := by
    refine ⟨_, params.toJson_eq, params.toJson_ofTyped.trans params.toJson_eq, h.readFrom ?_⟩
    intro key
    cases key <;> decide
  listed := by
    rw [fields_eq]
    exact h.readFrom ParamKey.mem_all

end TypedParams

/-- **Typed parameters survive every way back from JSON.** Whichever of the keys are there, they do
exactly if the amount is absent or not negative. And of an object that can be read as typed
parameters at all, in whichever spellings and with `null` for what is absent, the same record is
made when it is read as what an author wrote, again exactly if the amount is absent or not
negative. -/
theorem parameters_survive :
    (∀ params : TypedParams, params.Survives ↔
      ∀ amount : Binary64, params.rho = some amount → .zero ≤ amount) ∧
    ∀ (fields : Json.Fields) (params : TypedParams),
      TypedParams.ofJson? (.object fields) = some params →
        ((AuthoredParams.ofFields fields).normalize = params ↔
          ∀ amount : Binary64, params.rho = some amount → .zero ≤ amount) := by
  constructor
  · intro params
    rw [← params.readable_iff]
    constructor
    · intro h
      exact (AuthoredParams.normalize_ofTyped_eq_iff params).mp h.authored
    · exact TypedParams.Readable.survives
  · intro fields params h
    rw [← params.readable_iff]
    exact TypedParams.normalize_ofFields_eq_iff h

/-- 2^53, the first whole number that is written with a fraction. -/
def firstGap : Binary64 := ⟨2 ^ 52, 1075, by decide⟩

/-- Latin and Greek names, an entry that is `null` and a name that is no key. -/
def mixedFields : Json.Fields :=
  [("delta", .number (.real firstGap)), ("epsilon", .string "∞"), ("note", .bool true),
    ("rho", .number (.int 12 (by decide))), ("ζ", .string "<="), ("η", .null)]

def mixedParams : TypedParams where
  zeta := some Comparator.atMost
  delta := Threshold.ofNumber? firstGap
  epsilon := some Threshold.infinite
  rho := some (Binary64.ofInt 12)

theorem mixedFields_survive :
    TypedParams.ofJson? (.object mixedFields) = some mixedParams ∧ .zero ≤ Binary64.ofInt 12 ∧
      (AuthoredParams.ofFields mixedFields).normalize = mixedParams ∧ mixedParams.Survives := by
  have hread : TypedParams.ofJson? (.object mixedFields) = some mixedParams := by decide +kernel
  have hpositive : .zero ≤ Binary64.ofInt 12 := Binary64.zero_le_ofInt 12
  have hamount (amount : Binary64) (h : mixedParams.rho = some amount) : .zero ≤ amount := by
    rw [← Option.some.inj h]
    exact hpositive
  exact ⟨hread, hpositive, (parameters_survive.2 _ _ hread).mpr hamount,
    (parameters_survive.1 _).mpr hamount⟩

end EventPattern
