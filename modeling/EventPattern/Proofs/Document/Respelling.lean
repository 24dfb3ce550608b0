import EventPattern.Proofs.Document.Places
import EventPattern.Proofs.Document.Written

/-! A document in Latin spelling.

`Json.inLatin` writes the parameters of each relation under their Latin names only, each with the
value that counts, and leaves everything else as it is written. The result is a document again:
the same one, with the parameters in Latin spelling (`IsDocument.inLatin`), and this is all that
its model shows of it (`Document.model_inLatin`). -/
namespace EventPattern

/-! ### JSON values -/

namespace Json

/-- The fields with the value under a key rewritten. -/
def Fields.mapAt (key : String) (f : Json → Json) (fields : Fields) : Fields :=
  fields.map fun field => if field.1 = key then (field.1, f field.2) else field

/-- An object with the value under a key rewritten. -/
def mapField (key : String) (f : Json → Json) : Json → Json
  | .object fields => .object (Fields.mapAt key f fields)
  | other => other

def mapItems (f : Json → Json) : Json → Json
  | .array items => .array (items.map f)
  | other => other

/-- Parameters under their Latin names only: the Latin value where there is one, the Greek one
otherwise. -/
def paramsInLatin : Json → Json
  | .object fields =>
    let keys : List ParamKey := [.delta, .epsilon, .eta, .rho, .zeta]
    .record (keys.map fun key =>
      (key.latin, (Fields.get? fields key.latin).or (Fields.get? fields key.greek)))
  | other => other

def relationsInLatin : Json → Json := mapItems (mapField "params" paramsInLatin)

/-- A document of either shape with all parameters in Latin spelling. -/
def inLatin (input : Json) : Json :=
  (input.mapField "relations" relationsInLatin).mapField "constraints"
    (mapField "temporal" relationsInLatin)

@[simp] theorem Fields.get?_mapAt (key : String) (f : Json → Json) (fields : Fields)
    (other : String) :
    (fields.mapAt key f).get? other =
      if other = key then (fields.get? key).map f else fields.get? other := by
  induction fields with
  | nil => split <;> rfl
  | cons field rest ih =>
    rw [mapAt, List.map_cons, ← mapAt, get?_cons, ih, get?_cons, get?_cons]
    by_cases hkey : field.1 = key <;> by_cases hother : other = key <;> grind

end Json

/-! ### What is read -/

/-- Everything that counts, under its Latin name. -/
def AuthoredParams.inLatin (params : AuthoredParams) : AuthoredParams where
  latin := .ofFn params.effective

def Relation.inLatin (r : Relation (Option AuthoredParams)) : Relation (Option AuthoredParams) :=
  { r with params := r.params.map AuthoredParams.inLatin }

def AuthoredModel.inLatin (m : AuthoredModel) : AuthoredModel :=
  { m with relations := m.relations.map Relation.inLatin }

def LegacyRelation.inLatin (r : LegacyRelation) : LegacyRelation :=
  { r with params := r.params.map AuthoredParams.inLatin }

def Document.inLatin : Document → Document
  | .legacy d => .legacy { d with relations := d.relations.map LegacyRelation.inLatin }
  | .canonical d => .canonical { d with relations := d.relations.map Relation.inLatin }

namespace AuthoredParams

variable (params : AuthoredParams) (key : ParamKey)

@[simp] theorem get_latin_inLatin : params.inLatin.latin.get key = params.effective key :=
  ParamRecord.get_ofFn _ key

@[simp] theorem get_greek_inLatin : params.inLatin.greek.get key = none := by
  cases key <;> rfl

@[simp] theorem effective_inLatin : params.inLatin.effective key = params.effective key := by
  rw [effective, get_latin_inLatin, get_greek_inLatin, Option.or_none]

@[simp] theorem normalize_inLatin : params.inLatin.normalize = params.normalize := by
  simp only [normalize, effective_inLatin]

@[simp] theorem isEmpty_inLatin : params.inLatin.isEmpty = params.isEmpty := by
  rw [Bool.eq_iff_iff, isEmpty_iff, isEmpty_iff]
  simp only [effective_inLatin]

@[simp] theorem greekKeys_inLatin : params.inLatin.greekKeys = [] := by
  have hnone : params.inLatin.greek.present = [] := by
    rw [ParamRecord.present, List.filter_eq_nil_iff]
    simp
  rw [greekKeys, hnone, List.map_nil, sortOn_nil]

end AuthoredParams

theorem AuthoredParams.Proper.inLatin {params : AuthoredParams} (h : params.Proper) :
    params.inLatin.Proper := by
  constructor
  · intro key json hlatin
    rw [AuthoredParams.get_latin_inLatin] at hlatin
    exact h.effective hlatin
  · intro key json hgreek
    rw [AuthoredParams.get_greek_inLatin] at hgreek
    cases hgreek

theorem Document.model_inLatin (doc : Document) : doc.inLatin.model = doc.model.inLatin := by
  cases doc with
  | legacy d =>
    have hrelations : (d.relations.map LegacyRelation.inLatin).map LegacyRelation.relation =
        (d.relations.map LegacyRelation.relation).map Relation.inLatin := by
      rw [List.map_map, List.map_map]
      rfl
    exact congrArg (fun relations => { d.model with relations }) hrelations
  | canonical d => rfl

/-! ### Shapes -/

namespace Document

open Json (Fields)

section Map
variable {α β : Type} {fields : Fields} {key : String} {shape : Shape α} {shape' : Shape β}
  {f : Json → Json} {g : α → β}

theorem Only.mapAt {allowed : List String} (h : Only allowed fields) :
    Only allowed (fields.mapAt key f) := by
  intro field hfield
  obtain ⟨old, hold, rfl⟩ := List.mem_map.mp hfield
  split
  · exact h old hold
  · exact h old hold

theorem HasFieldOr.mapAt {a default : α} (hf : ∀ json a, shape json a → shape' (f json) (g a))
    (h : HasFieldOr fields key default shape a) :
    HasFieldOr (fields.mapAt key f) key (g default) shape' (g a) := by
  rcases h with ⟨hnone, rfl⟩ | ⟨json, hget, h⟩
  · exact .inl ⟨by rw [Json.Fields.get?_mapAt, if_pos rfl, hnone, Option.map_none], rfl⟩
  · exact .inr ⟨f json, by rw [Json.Fields.get?_mapAt, if_pos rfl, hget, Option.map_some],
      hf json a h⟩

theorem IsList.mapItems (hf : ∀ json a, shape json a → shape' (f json) (g a)) (json : Json)
    (values : List α) (h : IsList shape json values) :
    IsList shape' (json.mapItems f) (values.map g) := by
  obtain ⟨items, rfl, hitems⟩ := h
  exact ⟨items.map f, rfl, List.forall₂_map_left_iff.mpr (List.forall₂_map_right_iff.mpr
    (hitems.imp hf))⟩

end Map

/-! ### Parameters -/

/-- The Greek names are left out, since nothing stands under them any more. -/
theorem paramsInLatin_object (fields : Fields) :
    (Json.object fields).paramsInLatin = (AuthoredParams.ofFields fields).inLatin.toJson := by
  rw [toJson_params_of_latin (AuthoredParams.get_greek_inLatin _)]
  rfl

theorem IsParams.inLatin (json : Json) (params : Option AuthoredParams) (h : IsParams json params) :
    IsParams json.paramsInLatin (params.map AuthoredParams.inLatin) := by
  have hproper := h.proper
  obtain ⟨rfl, rfl⟩ | ⟨fields, rfl, -, rfl⟩ := h
  · exact .inl ⟨rfl, rfl⟩
  · rw [paramsInLatin_object]
    exact isParams_toJson (hproper _ rfl).inLatin

/-! ### Relations -/

theorem IsLegacyRelation.inLatin {ids : List String} (json : Json) (r : LegacyRelation)
    (h : IsLegacyRelation ids json r) :
    IsLegacyRelation ids (json.mapField "params" Json.paramsInLatin) r.inLatin := by
  obtain ⟨fields, rfl, honly, h⟩ := h
  refine ⟨_, rfl, honly.mapAt, ?_⟩
  exact {
    id := h.id.of_get? (by simp)
    left := h.left.of_get? (by simp)
    right := h.right.of_get? (by simp)
    operator := h.operator.of_get? (by simp)
    params := h.params.mapAt IsParams.inLatin
    allenAlias := h.allenAlias.of_get? (by simp)
    constraintIds := h.constraintIds.of_get? (by simp) }

theorem IsCanonicalRelation.inLatin {ids : List String} (json : Json)
    (r : Relation (Option AuthoredParams)) (h : IsCanonicalRelation ids json r) :
    IsCanonicalRelation ids (json.mapField "params" Json.paramsInLatin) r.inLatin := by
  obtain ⟨fields, rfl, honly, h⟩ := h
  refine ⟨_, rfl, honly.mapAt, ?_⟩
  exact {
    id := h.id.of_get? (by simp)
    left := h.left.of_get? (by simp)
    right := h.right.of_get? (by simp)
    operator := h.operator.of_get? (by simp)
    params := h.params.mapAt IsParams.inLatin
    constraintIds := h.constraintIds.of_get? (by simp)
    label := h.label.of_get? (by simp) }

/-! ### Documents -/

theorem IsLegacyConstraints.inLatin {ids : List String} (json : Json)
    (parts : List LegacyRelation × List LegacyConstraint) (h : IsLegacyConstraints ids json parts) :
    IsLegacyConstraints ids (json.mapField "temporal" Json.relationsInLatin)
      (parts.1.map LegacyRelation.inLatin, parts.2) := by
  obtain ⟨fields, rfl, honly, hrelations, hconstraints⟩ := h
  exact ⟨_, rfl, honly.mapAt, hrelations.mapAt (IsList.mapItems IsLegacyRelation.inLatin),
    hconstraints.of_get? (by simp)⟩

/-- The canonical shape has no relations among its constraints. -/
theorem IsCanonicalConstraints.inLatin (json : Json) (constraints : List CanonicalConstraint)
    (h : IsCanonicalConstraints json constraints) :
    IsCanonicalConstraints (json.mapField "temporal" Json.relationsInLatin) constraints := by
  obtain ⟨fields, rfl, honly, hconstraints⟩ := h
  exact ⟨_, rfl, honly.mapAt, hconstraints.of_get? (by simp)⟩

/-- **A document in Latin spelling is a document.** -/
theorem IsDocument.inLatin {input : Json} {doc : Document} (h : IsDocument input doc) :
    IsDocument input.inLatin doc.inLatin := by
  obtain ⟨fields, rfl, hversion, h⟩ := h
  cases doc with
  | legacy d =>
    have h : LegacyFields fields d := h
    refine ⟨_, rfl, hversion.of_get? (by simp), ?_⟩
    show LegacyFields _ { d with relations := d.relations.map LegacyRelation.inLatin }
    have hconstraints : HasFieldOr (Json.Fields.mapAt "relations" Json.relationsInLatin fields)
        "constraints" ([], []) (IsLegacyConstraints (d.intervals.map (·.id)))
        (d.relations, d.constraints) := h.constraints.of_get? (by simp)
    exact {
      only := h.only.mapAt.mapAt
      id := h.id.of_get? (by simp)
      name := h.name.of_get? (by simp)
      description := h.description.of_get? (by simp)
      createdAt := h.createdAt.of_get? (by simp)
      updatedAt := h.updatedAt.of_get? (by simp)
      intervals := ⟨h.intervals.read.of_get? (by simp), h.intervals.distinct⟩
      constraints := hconstraints.mapAt IsLegacyConstraints.inLatin
      selection := h.selection.of_get? (by simp) }
  | canonical d =>
    have h : CanonicalFields fields d := h
    refine ⟨_, rfl, hversion.of_get? (by simp), ?_⟩
    show CanonicalFields _ { d with relations := d.relations.map Relation.inLatin }
    have hrelations := h.relations.mapAt (f := Json.relationsInLatin)
      (IsList.mapItems IsCanonicalRelation.inLatin)
    have hconstraints : HasFieldOr (Json.Fields.mapAt "relations" Json.relationsInLatin fields)
        "constraints" [] IsCanonicalConstraints d.constraints := h.constraints.of_get? (by simp)
    exact {
      only := h.only.mapAt.mapAt
      id := h.id.of_get? (by simp)
      metadata := h.metadata.of_get? (by simp)
      intervals := ⟨h.intervals.read.of_get? (by simp), h.intervals.distinct⟩
      relations := hrelations.of_get? (by simp)
      constraints := hconstraints.mapAt (g := fun constraints => constraints)
        IsCanonicalConstraints.inLatin
      selection := h.selection.of_get? (by simp) }

end Document
end EventPattern
