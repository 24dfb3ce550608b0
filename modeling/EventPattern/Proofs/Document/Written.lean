import EventPattern.Document.Json
import EventPattern.Proofs.Document.Proper

/-! Documents written down.

What a proper document is written as is in the grammar, and read as that document
(`isDocument_toJson`): together with `IsDocument.proper`, the proper documents are exactly
those that reading gives. Which optional fields a record leaves out makes no difference, since
it is looked into through the fields that it declares. -/
namespace EventPattern.Document

open Json (Fields)
open Json.Fields (present)

variable {α : Type}

/-! ### Fields that are written -/

theorem only_present {allowed : List String} {declared : List (String × Option Json)}
    (h : declared.map (·.1) ⊆ allowed) : Only allowed (present declared) :=
  fun _ hfield => h (Json.Fields.key_mem_of_mem_present hfield)

theorem isNonEmpty_string {text : String} (h : text ≠ "") : IsNonEmpty (.string text) text :=
  ⟨rfl, h⟩

theorem isList_map {shape : Shape α} {write : α → Json} {values : List α}
    (h : ∀ a ∈ values, shape (write a) a) : IsList shape (.array (values.map write)) values :=
  ⟨values.map write, rfl, List.forall₂_map_left_iff.mpr (List.forall₂_same.mpr h)⟩

theorem isList_strings {texts : List String} (h : ∀ text ∈ texts, text ≠ "") :
    IsList IsNonEmpty (.strings texts) texts :=
  isList_map fun text htext => isNonEmpty_string (h text htext)

theorem mayHaveField_map {fields : Fields} {key : String} {shape : Shape α} {write : α → Json}
    {given : Option α} (hget : fields.get? key = given.map write)
    (h : ∀ a ∈ given, shape (write a) a) : MayHaveField fields key shape given := by
  cases given with
  | none => exact .inl ⟨hget, rfl⟩
  | some a => exact .inr ⟨write a, hget, a, rfl, h a rfl⟩

/-- A list that is left out when it is empty is read as the empty one. -/
theorem hasFieldOr_nonEmptyStrings {fields : Fields} {key : String} {texts : List String}
    (hget : fields.get? key = Json.nonEmptyStrings texts) (h : ∀ text ∈ texts, text ≠ "") :
    HasFieldOr fields key [] (IsList IsNonEmpty) texts := by
  cases texts with
  | nil => exact .inl ⟨hget, rfl⟩
  | cons first rest => exact .inr ⟨_, hget, isList_strings h⟩

/-! ### Intervals -/

theorem isTick_ofUInt64 (tick : Tick) : IsTick (.number (.ofUInt64 tick)) tick := by
  refine ⟨.ofUInt64 tick, rfl, .inl ?_⟩
  show (if (0 : Int) ≤ (tick.toNat : Int) then some (UInt64.ofNat (tick.toNat : Int).toNat)
    else none) = some tick
  rw [if_pos (Int.natCast_nonneg _), Int.toNat_natCast, UInt64.ofNat_toNat]

theorem isPredicate_toJson {p : Predicate} (h : p.Proper) : IsPredicate p.toJson p := by
  refine ⟨_, rfl, ?_, ⟨?_, ?_⟩⟩
  · simp [Only]
  · exact ⟨.string p.name, by simp, isNonEmpty_string h.name⟩
  · exact .inr ⟨.strings p.args, by simp, isList_strings h.args⟩

theorem isInterval_toJson {i : Interval} (h : i.Proper) : IsInterval i.toJson i := by
  refine ⟨_, Json.Fields.record_eq _, only_present (by simp), ?_⟩
  exact {
    id := ⟨.string i.id, by simp, isNonEmpty_string h.id⟩
    start := ⟨.number (.ofUInt64 i.start), by simp, isTick_ofUInt64 _⟩
    stop := ⟨.number (.ofUInt64 i.stop), by simp, isTick_ofUInt64 _⟩
    ordered := h.ordered
    predicate := ⟨i.predicate.toJson, by simp, isPredicate_toJson h.predicate⟩
    label := mayHaveField_map (by simp) fun label hlabel =>
      isNonEmpty_string (h.label label hlabel) }

/-! ### Parameters -/

/-- The fields that authored parameters are written as. -/
def paramFields (params : AuthoredParams) : List (String × Option Json) :=
  [.delta, .epsilon, .eta, .rho, .zeta].map (fun key => (key.latin, params.latin.get key)) ++
    [.delta, .epsilon, .zeta, .eta, .rho].map fun key => (key.greek, params.greek.get key)

theorem toJson_params (params : AuthoredParams) :
    params.toJson = .object (present (paramFields params)) := rfl

/-- Where nothing stands under the Greek names, the Latin ones are all that is written. -/
theorem toJson_params_of_latin {params : AuthoredParams}
    (h : ∀ key, params.greek.get key = none) :
    params.toJson = .record ([.delta, .epsilon, .eta, .rho, .zeta].map fun key =>
      (key.latin, params.latin.get key)) := by
  have hgreek (keys : List ParamKey) :
      present (keys.map fun key => (key.greek, params.greek.get key)) = [] := by
    refine List.filterMap_eq_nil_iff.mpr fun field hfield => ?_
    obtain ⟨key, -, rfl⟩ := List.mem_map.mp hfield
    rw [h key]
    rfl
  rw [toJson_params, paramFields, Json.Fields.present_append, hgreek, List.append_nil,
    Json.Fields.record_eq]

/-- **Authored parameters survive being written down.** -/
theorem ofFields_paramFields (params : AuthoredParams) :
    AuthoredParams.ofFields (present (paramFields params)) = params := by
  have hlatin (key : ParamKey) :
      Fields.get? (present (paramFields params)) key.latin = params.latin.get key := by
    cases key <;> simp [paramFields, ParamKey.latin, ParamKey.greek]
  have hgreek (key : ParamKey) :
      Fields.get? (present (paramFields params)) key.greek = params.greek.get key := by
    cases key <;> simp [paramFields, ParamKey.latin, ParamKey.greek]
  show AuthoredParams.mk _ _ = AuthoredParams.mk params.latin params.greek
  congr 1
  · exact ParamRecord.ext_get fun key => (ParamRecord.get_ofFn _ key).trans (hlatin key)
  · exact ParamRecord.ext_get fun key => (ParamRecord.get_ofFn _ key).trans (hgreek key)

theorem isParam_of_mem_paramFields {params : AuthoredParams} (h : params.Proper)
    {field : String × Json} (hfield : field ∈ present (paramFields params)) : IsParam field := by
  rw [Json.Fields.mem_present, paramFields, List.mem_append, List.mem_map, List.mem_map] at hfield
  rcases hfield with ⟨key, _, heq⟩ | ⟨key, _, heq⟩
  · obtain ⟨hname, hvalue⟩ := Prod.mk.inj heq
    rw [IsParam, ← hname]
    exact ⟨key, .latin, key.ofName?_latin, h.latin key _ hvalue⟩
  · obtain ⟨hname, hvalue⟩ := Prod.mk.inj heq
    rw [IsParam, ← hname]
    exact ⟨key, .greek, key.ofName?_greek, h.greek key _ hvalue⟩

theorem isParams_toJson {params : AuthoredParams} (h : params.Proper) :
    IsParams params.toJson (some params) := by
  refine .inr ⟨_, toJson_params params, fun field hfield => isParam_of_mem_paramFields h hfield, ?_⟩
  rw [ofFields_paramFields]

theorem hasFieldOr_params {fields : Fields} {key : String} {given : Option AuthoredParams}
    (hget : fields.get? key = given.map AuthoredParams.toJson)
    (h : ∀ params ∈ given, params.Proper) : HasFieldOr fields key none IsParams given := by
  cases given with
  | none => exact .inl ⟨hget, rfl⟩
  | some params => exact .inr ⟨params.toJson, hget, isParams_toJson (h params rfl)⟩

/-! ### Relations -/

theorem isLegacyRelation_toJson {ids : List String} {r : LegacyRelation} (h : r.Proper ids) :
    IsLegacyRelation ids r.toJson r := by
  refine ⟨_, Json.Fields.record_eq _, only_present (by simp), ?_⟩
  exact {
    id := ⟨.string r.id, by simp, isNonEmpty_string h.relation.id⟩
    left := ⟨.string r.left, by simp, isNonEmpty_string h.relation.left.1, h.relation.left.2⟩
    right := ⟨.string r.right, by simp, isNonEmpty_string h.relation.right.1, h.relation.right.2⟩
    operator := ⟨.string r.operator, by simp, isNonEmpty_string h.relation.operator⟩
    params := hasFieldOr_params (by simp) h.relation.params
    allenAlias := mayHaveField_map (by simp) fun name hname =>
      isNonEmpty_string (h.allenAlias name hname)
    constraintIds := hasFieldOr_nonEmptyStrings (by simp) h.relation.constraintIds }

theorem isCanonicalRelation_toJson {ids : List String} {r : Relation (Option AuthoredParams)}
    (h : r.Proper ids) : IsCanonicalRelation ids (canonicalRelationJson r) r := by
  refine ⟨_, Json.Fields.record_eq _, only_present (by simp), ?_⟩
  exact {
    id := ⟨.string r.id, by simp, isNonEmpty_string h.id⟩
    left := ⟨.string r.left, by simp, isNonEmpty_string h.left.1, h.left.2⟩
    right := ⟨.string r.right, by simp, isNonEmpty_string h.right.1, h.right.2⟩
    operator := ⟨.string r.operator, by simp, isNonEmpty_string h.operator⟩
    params := hasFieldOr_params (by simp) h.params
    constraintIds := hasFieldOr_nonEmptyStrings (by simp) h.constraintIds
    label := mayHaveField_map (by simp) fun label hlabel =>
      isNonEmpty_string (h.label label hlabel) }

/-! ### Constraints -/

theorem isLegacyConstraint_toJson {c : LegacyConstraint} (h : c.Proper) :
    IsLegacyConstraint c.toJson c := by
  refine ⟨_, rfl, by simp [Only], ⟨?_, ?_, ?_⟩⟩
  · exact ⟨.string c.id, by simp, isNonEmpty_string h.id⟩
  · exact ⟨.string c.kind, by simp, isNonEmpty_string h.kind⟩
  · exact .inr ⟨.object c.payload, by simp, rfl⟩

theorem isCanonicalConstraint_toJson {c : CanonicalConstraint} (h : c.Proper) :
    IsCanonicalConstraint c.toJson c := by
  cases c with
  | relationParam id relationId key value =>
    obtain ⟨hid, hrelation, hread⟩ := h
    refine ⟨_, rfl, .relationParam (by simp [Only]) (by simp) ?_ ?_ ?_ (by simp) hread⟩
    · exact ⟨.string id, by simp, isNonEmpty_string hid⟩
    · exact ⟨.string relationId, by simp, isNonEmpty_string hrelation⟩
    · exact ⟨.string key.latin, by simp, key.latin, .latin, rfl, key.ofName?_latin⟩
  | note id text =>
    refine ⟨_, rfl, .note (by simp [Only]) (by simp) ?_ ?_⟩
    · exact ⟨.string id, by simp, isNonEmpty_string h⟩
    · exact ⟨.string text, by simp, rfl⟩

/-! ### Documents -/

theorem isSelection_toJson {s : Selection} (h : s.Proper) : IsSelection s.toJson s :=
  ⟨_, rfl, by simp [Only], .strings s.ids, by simp, isList_strings h⟩

theorem hasIntervals_toJson {fields : Fields} {intervals : List Interval}
    (hget : fields.get? "intervals" = some (.array (intervals.map Interval.toJson)))
    (h : ∀ i ∈ intervals, i.Proper) (hdistinct : (intervals.map (·.id)).Nodup) :
    HasIntervals fields intervals :=
  ⟨⟨_, hget, isList_map fun i hi => isInterval_toJson (h i hi)⟩, hdistinct⟩

theorem isLegacyConstraints_object {ids : List String} {relations : List LegacyRelation}
    {constraints : List LegacyConstraint} (hrelations : ∀ r ∈ relations, r.Proper ids)
    (hconstraints : ∀ c ∈ constraints, c.Proper) :
    IsLegacyConstraints ids
      (.object [("extra", .array (constraints.map LegacyConstraint.toJson)),
        ("temporal", .array (relations.map LegacyRelation.toJson))])
      (relations, constraints) := by
  have htemporal : IsList (IsLegacyRelation ids) (.array (relations.map LegacyRelation.toJson))
      relations := isList_map fun r hr => isLegacyRelation_toJson (hrelations r hr)
  have hextra : IsList IsLegacyConstraint (.array (constraints.map LegacyConstraint.toJson))
      constraints := isList_map fun c hc => isLegacyConstraint_toJson (hconstraints c hc)
  exact ⟨_, rfl, by simp [Only], .inr ⟨_, by simp, htemporal⟩, .inr ⟨_, by simp, hextra⟩⟩

theorem isDocument_toLegacyJson {d : LegacyDocument} (h : d.Proper) :
    IsDocument d.toJson (.legacy d) := by
  refine ⟨_, Json.Fields.record_eq _, ⟨.string legacyVersion, by simp, rfl⟩, ?_⟩
  show LegacyFields _ d
  exact {
    only := only_present (by simp)
    id := ⟨.string d.id, by simp, isNonEmpty_string h.id⟩
    name := ⟨.string d.name, by simp, isNonEmpty_string h.name⟩
    description := mayHaveField_map (by simp) fun _ _ => rfl
    createdAt := mayHaveField_map (by simp) fun _ _ => rfl
    updatedAt := mayHaveField_map (by simp) fun _ _ => rfl
    intervals := hasIntervals_toJson (by simp) h.intervals h.distinct
    constraints := .inr ⟨_, by simp, isLegacyConstraints_object h.relations h.constraints⟩
    selection := mayHaveField_map (by simp) fun s hs => isSelection_toJson (h.selection s hs) }

theorem isMetadata_toJson (d : CanonicalDocument) (h : d.name ≠ "") :
    IsMetadata (.record [("createdAtISO", d.createdAt.map .string),
      ("description", d.description.map .string), ("name", some (.string d.name))])
      (d.name, d.description, d.createdAt) := by
  refine ⟨_, Json.Fields.record_eq _, only_present (by simp), ⟨?_, ?_, ?_⟩⟩
  · exact ⟨.string d.name, by simp, isNonEmpty_string h⟩
  · exact mayHaveField_map (by simp) fun _ _ => rfl
  · exact mayHaveField_map (by simp) fun _ _ => rfl

theorem isCanonicalConstraints_object {constraints : List CanonicalConstraint}
    (h : ∀ c ∈ constraints, c.Proper) :
    IsCanonicalConstraints
      (.object [("constraints", .array (constraints.map CanonicalConstraint.toJson))])
      constraints := by
  have hlist : IsList IsCanonicalConstraint (.array (constraints.map CanonicalConstraint.toJson))
      constraints := isList_map fun c hc => isCanonicalConstraint_toJson (h c hc)
  exact ⟨_, rfl, by simp [Only], .inr ⟨_, by simp, hlist⟩⟩

theorem isDocument_toCanonicalJson {d : CanonicalDocument} (h : d.Proper) :
    IsDocument d.toJson (.canonical d) := by
  refine ⟨_, Json.Fields.record_eq _, ⟨.string canonicalVersion, by simp, rfl⟩, ?_⟩
  show CanonicalFields _ d
  exact {
    only := only_present (by simp)
    id := ⟨.string d.id, by simp, isNonEmpty_string h.id⟩
    metadata := ⟨_, by simp, isMetadata_toJson d h.name⟩
    intervals := hasIntervals_toJson (by simp) h.intervals h.distinct
    relations := .inr ⟨_, by simp, isList_map fun r hr =>
      isCanonicalRelation_toJson (h.relations r hr)⟩
    constraints := .inr ⟨_, by simp, isCanonicalConstraints_object h.constraints⟩
    selection := mayHaveField_map (by simp) fun s hs => isSelection_toJson (h.selection s hs) }

/-- **A proper document is read back from what it is written as.** -/
theorem isDocument_toJson {doc : Document} (h : doc.Proper) : IsDocument doc.toJson doc := by
  cases doc with
  | legacy d => exact isDocument_toLegacyJson h
  | canonical d => exact isDocument_toCanonicalJson h

end EventPattern.Document
