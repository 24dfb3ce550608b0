import EventPattern.Model.Basic
import EventPattern.Proofs.Number.Rounding

/-! Values written and read back.

A value that can be read at all (`ParamKind.Readable`: an amount is not negative) is read
back from what it is written as. So typed parameters that are handed out as authored ones
normalize to themselves (`normalize_ofTyped`). -/
namespace EventPattern

/-! ### Single values -/

theorem Comparator.ofText?_symbol (c : Comparator) : ofText? c.symbol = some c := by
  cases c <;> decide

namespace ParamKind

/-- The values that `read?` gives. -/
def Readable : (kind : ParamKind) → kind.Value → Prop
  | .amount, x => .zero ≤ x
  | .comparator, _ | .threshold, _ => True

variable {kind : ParamKind}

/-- The two ways to read a value differ in the values that are not in its domain. -/
theorem read?_eq_some_iff {json : Json} {value : kind.Value} :
    kind.read? json = some value ↔ kind.readAny? json = some value ∧ kind.Readable value := by
  cases kind with
  | comparator => exact (and_iff_left trivial).symm
  | threshold => exact (and_iff_left trivial).symm
  | amount =>
    show nonNegative? json = some value ↔ json.number?.map Number.value = some value ∧ .zero ≤ value
    rw [nonNegative?, Option.bind_eq_some_iff]
    constructor
    · rintro ⟨x, hx, hvalue⟩
      split at hvalue
      · next hle =>
        cases hvalue
        exact ⟨hx, hle⟩
      · cases hvalue
    · rintro ⟨hx, hle⟩
      exact ⟨value, hx, if_pos hle⟩

theorem readable_of_read? {json : Json} {value : kind.Value} (h : kind.read? json = some value) :
    kind.Readable value :=
  (read?_eq_some_iff.mp h).2

theorem readAny?_toJson (value : kind.Value) : kind.readAny? (kind.toJson value) = some value := by
  cases kind with
  | comparator => exact Comparator.ofText?_symbol value
  | threshold =>
    cases value with
    | infinite => rfl
    | finite bound nonneg =>
      show Threshold.ofNumber? (Number.ofBinary64 bound).value = _
      rw [Number.value_ofBinary64, Threshold.ofNumber?, dif_pos nonneg]
  | amount => exact congrArg some (Number.value_ofBinary64 value)

theorem read?_toJson {value : kind.Value} (h : kind.Readable value) :
    kind.read? (kind.toJson value) = some value :=
  read?_eq_some_iff.mpr ⟨readAny?_toJson value, h⟩

end ParamKind

/-! ### Names of keys -/

namespace ParamKey

/-- A key in one of its spellings. -/
def spelled (key : ParamKey) : Spelling → String
  | .latin => key.latin
  | .greek => key.greek

theorem mem_all (key : ParamKey) : key ∈ all := by cases key <;> decide

theorem ofName?_spelled (key : ParamKey) (spelling : Spelling) :
    ofName? (key.spelled spelling) = some (key, spelling) := by
  cases key <;> cases spelling <;> decide

theorem ofName?_latin (key : ParamKey) : ofName? key.latin = some (key, .latin) :=
  ofName?_spelled key .latin

theorem ofName?_greek (key : ParamKey) : ofName? key.greek = some (key, .greek) :=
  ofName?_spelled key .greek

theorem latin_injective : Function.Injective latin := by
  intro key other h
  have hsame := (key.ofName?_latin).symm.trans ((congrArg ofName? h).trans other.ofName?_latin)
  cases hsame
  rfl

theorem eq_spelled_of_ofName? {name : String} {key : ParamKey} {spelling : Spelling}
    (h : ofName? name = some (key, spelling)) : name = key.spelled spelling := by
  obtain ⟨other, _, hother⟩ := List.exists_of_findSome?_eq_some h
  split at hother
  · next hlatin =>
    cases hother
    exact hlatin.symm
  · split at hother
    · next hgreek =>
      cases hother
      exact hgreek.symm
    · cases hother

end ParamKey

/-! ### Records of values -/

theorem ParamRecord.isEmpty_iff {α : ParamKey → Type} (r : ParamRecord α) :
    r.isEmpty ↔ ∀ key, r.get key = none := by
  rw [isEmpty, List.isEmpty_iff, present, List.filter_eq_nil_iff]
  constructor
  · intro h key
    exact Option.not_isSome_iff_eq_none.mp (h key key.mem_all)
  · intro h key _
    rw [h key]
    simp

theorem ParamRecord.mem_missing {α : ParamKey → Type} {r : ParamRecord α} {key : ParamKey} :
    key ∈ r.missing ↔ r.get key = none := by
  rw [missing, List.mem_filter, Option.isNone_iff_eq_none]
  exact and_iff_right key.mem_all

/-- Every value of the record is one that can be read. -/
def TypedParams.Readable (params : TypedParams) : Prop :=
  ∀ key value, params.get key = some value → key.kind.Readable value

theorem TypedParams.Readable.overlay {base top : TypedParams} (hbase : base.Readable)
    (htop : top.Readable) : TypedParams.Readable (base.overlay top) := by
  intro key value h
  rw [ParamRecord.get_overlay, Option.or_eq_some_iff] at h
  rcases h with h | ⟨_, h⟩
  · exact htop key value h
  · exact hbase key value h

theorem TypedParams.readable_empty : TypedParams.Readable {} := by
  intro key value h
  cases key <;> cases h

namespace AuthoredParams

/-- Nothing is written where nothing counts as written. -/
theorem isEmpty_iff (params : AuthoredParams) :
    params.isEmpty ↔ ∀ key, params.effective key = none := by
  rw [isEmpty, Bool.and_eq_true, ParamRecord.isEmpty_iff, ParamRecord.isEmpty_iff, ← forall_and]
  simp only [effective, Option.or_eq_none_iff]

@[simp] theorem get_normalize (params : AuthoredParams) (key : ParamKey) :
    params.normalize.get key = (params.effective key).bind key.kind.read? :=
  ParamRecord.get_ofFn _ key

theorem readable_normalize (params : AuthoredParams) : params.normalize.Readable := by
  intro key value h
  rw [get_normalize] at h
  obtain ⟨raw, _, hraw⟩ := Option.bind_eq_some_iff.mp h
  exact ParamKind.readable_of_read? hraw

@[simp] theorem get_latin_ofFields (fields : Json.Fields) (key : ParamKey) :
    (ofFields fields).latin.get key = fields.get? key.latin :=
  ParamRecord.get_ofFn _ key

@[simp] theorem get_greek_ofFields (fields : Json.Fields) (key : ParamKey) :
    (ofFields fields).greek.get key = fields.get? key.greek :=
  ParamRecord.get_ofFn _ key

@[simp] theorem get_latin_ofTyped (params : TypedParams) (key : ParamKey) :
    (ofTyped params).latin.get key = (params.get key).map key.kind.toJson :=
  ParamRecord.get_ofFn _ key

@[simp] theorem get_greek_ofTyped (params : TypedParams) (key : ParamKey) :
    (ofTyped params).greek.get key = none := by
  cases key <;> rfl

theorem effective_ofTyped (params : TypedParams) (key : ParamKey) :
    (ofTyped params).effective key = (params.get key).map key.kind.toJson := by
  rw [effective, get_latin_ofTyped, get_greek_ofTyped, Option.or_none]

/-- **Typed parameters that are written down are read as they were.** -/
theorem normalize_ofTyped {params : TypedParams} (h : params.Readable) :
    (ofTyped params).normalize = params := by
  refine ParamRecord.ext_get fun key => ?_
  rw [get_normalize, effective_ofTyped]
  cases hvalue : params.get key with
  | none => rfl
  | some value => exact ParamKind.read?_toJson (h key value hvalue)

end AuthoredParams

/-- What the author writes for a key of a relation, under the spelling that counts. -/
def Relation.authored (r : Relation (Option AuthoredParams)) (key : ParamKey) : Option Json :=
  r.params.bind fun params => params.effective key

end EventPattern
