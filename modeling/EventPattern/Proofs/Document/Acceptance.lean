import EventPattern.Proofs.Document.Gathering
import EventPattern.Proofs.Document.Shape

/-! The checks accept the grammar.

Each check passes on exactly the values of its shape, with what they are read as, wherever
they stand (`Reads`). From the checks of single values up, one fact for each check, this leads
to `check_eq_ok_iff`: a document is accepted exactly when it is one of the grammar. -/
namespace EventPattern.Document

open Json (Fields)

variable {α : Type}

/-- The check passes on the values of the shape. -/
def Reads (check : Check α) (shape : Shape α) : Prop :=
  ∀ place json a, check place json = .ok a ↔ shape json a

/-! ### Values of any shape -/

theorem unknownFields_eq_ok (place : Location) (allowed : List String) (fields : Fields) :
    unknownFields place allowed fields = .ok () ↔ Only allowed fields := by
  simp [unknownFields, Only]

theorem anyObject_reads : Reads anyObject IsObject := by
  intro place json fields
  cases json <;> simp [anyObject, IsObject]

theorem object_reads {allowed : List String} {read : Location → Fields → Checked α}
    {shape : Fields → α → Prop} (h : ∀ place fields a, read place fields = .ok a ↔ shape fields a) :
    Reads (object allowed read) (IsObjectOf allowed shape) := by
  intro place json a
  cases json <;> simp [object, IsObjectOf, unknownFields_eq_ok, h]

theorem required_eq_ok {check : Check α} {shape : Shape α} (h : Reads check shape)
    (place : Location) (fields : Fields) (key : String) (a : α) :
    required place fields key check = .ok a ↔ HasField fields key shape a := by
  rw [required, HasField]
  cases fields.get? key with
  | none => simp
  | some json => simp [h _ json a]

theorem defaulting_eq_ok {check : Check α} {shape : Shape α} (h : Reads check shape)
    (place : Location) (fields : Fields) (key : String) (default a : α) :
    defaulting place fields key default check = .ok a ↔
      HasFieldOr fields key default shape a := by
  rw [defaulting, HasFieldOr, HasField]
  cases fields.get? key with
  | none => simp [eq_comm]
  | some json => simp [h _ json a]

theorem optional_eq_ok {check : Check α} {shape : Shape α} (h : Reads check shape)
    (place : Location) (fields : Fields) (key : String) (given : Option α) :
    optional place fields key check = .ok given ↔ MayHaveField fields key shape given := by
  refine defaulting_eq_ok (fun place json given => ?_) place fields key none given
  rw [Checked.map_eq_ok, IsSome]
  constructor
  · intro h
    obtain ⟨a, ha, rfl⟩ := h
    exact ⟨a, rfl, (h place json a).mp ha⟩
  · intro h
    obtain ⟨a, rfl, ha⟩ := h
    exact ⟨a, (h place json a).mpr ha, rfl⟩

/-- The place of an item depends on its position, its shape does not. -/
theorem forall₂_zipIdx {check : Check α} {shape : Shape α} (h : Reads check shape)
    (place : Location) (items : List Json) (n : Nat) (values : List α) :
    List.Forall₂ (fun outcome value => outcome = Checked.ok value)
        ((items.zipIdx n).map fun item => check (.index place item.2) item.1) values ↔
      List.Forall₂ shape items values := by
  induction items generalizing n values with
  | nil => simp
  | cons item rest ih =>
    simp only [List.zipIdx_cons, List.map_cons, List.forall₂_cons_left_iff, h _ item, ih]

theorem list_reads {check : Check α} {shape : Shape α} (h : Reads check shape) :
    Reads (list check) (IsList shape) := by
  intro place json values
  cases json <;> simp [list, IsList, Checked.all_eq_ok, forall₂_zipIdx h]

theorem string_reads : Reads string IsText := by
  intro place json text
  cases json <;> simp [string, IsText]

theorem nonEmpty_reads (what : String) : Reads (nonEmpty what) IsNonEmpty := by
  intro place json text
  rw [nonEmpty, Checked.andThen_eq_ok, IsNonEmpty]
  constructor
  · intro h
    obtain ⟨found, hfound, hok⟩ := h
    split at hok
    · exact absurd hok (Checked.fail_ne_ok _ _ _)
    · next hne =>
      cases hok
      exact ⟨(string_reads place json _).mp hfound, hne⟩
  · intro h
    obtain ⟨htext, hne⟩ := h
    exact ⟨text, (string_reads place json text).mpr htext, if_neg hne⟩

theorem identifier_reads : Reads identifier IsNonEmpty := nonEmpty_reads "id"

/-! ### Intervals -/

theorem tick_reads : Reads tick IsTick := by
  intro place json t
  cases json with
  | number n =>
    simp only [tick, IsTick, Json.number.injEq, exists_eq_left']
    cases hexact : n.toUInt64? with
    | some exact => simp
    | none =>
      by_cases hwhole : n.value.isWhole
      · by_cases hneg : n.value < .zero
        · have : ¬ Binary64.zero ≤ n.value := Int.not_le.mpr hneg
          simp [hwhole, hneg, this]
        · have : Binary64.zero ≤ n.value := Int.not_lt.mp hneg
          simp [hwhole, hneg, this, eq_comm]
      · simp [hwhole]
  | _ => simp [tick, IsTick]

theorem span_eq_ok (place : Location) (fields : Fields) (ticks : Tick × Tick) :
    span place fields = .ok ticks ↔
      HasField fields "start" IsTick ticks.1 ∧ HasField fields "end" IsTick ticks.2 ∧
        ticks.1 ≤ ticks.2 := by
  simp only [span, Checked.andThen_eq_ok, Checked.both_eq_ok, required_eq_ok tick_reads]
  constructor
  · intro h
    obtain ⟨found, ⟨hstart, hstop⟩, hok⟩ := h
    split at hok
    · exact absurd hok (Checked.fail_ne_ok _ _ _)
    · next hle =>
      cases hok
      exact ⟨hstart, hstop, UInt64.not_lt.mp hle⟩
  · intro h
    obtain ⟨hstart, hstop, hle⟩ := h
    exact ⟨ticks, ⟨hstart, hstop⟩, if_neg (UInt64.not_lt.mpr hle)⟩

theorem predicate_reads : Reads predicate IsPredicate := by
  refine object_reads fun place fields p => ?_
  simp only [Checked.seq_eq_ok, Checked.fmap_eq_ok, required_eq_ok (nonEmpty_reads _),
    defaulting_eq_ok (list_reads (nonEmpty_reads _))]
  constructor
  · intro h
    obtain ⟨_, args, ⟨name, hname, rfl⟩, hargs, rfl⟩ := h
    exact ⟨hname, hargs⟩
  · intro h
    obtain ⟨hname, hargs⟩ := h
    exact ⟨_, p.args, ⟨p.name, hname, rfl⟩, hargs, rfl⟩

theorem interval_reads : Reads interval IsInterval := by
  refine object_reads fun place fields i => ?_
  simp only [Checked.seq_eq_ok, Checked.fmap_eq_ok, required_eq_ok identifier_reads, span_eq_ok,
    required_eq_ok predicate_reads, optional_eq_ok (nonEmpty_reads _)]
  constructor
  · intro h
    obtain ⟨_, label, ⟨_, p, ⟨_, ticks, ⟨id, hid, rfl⟩, ⟨hstart, hstop, hle⟩, rfl⟩, hp, rfl⟩,
      hlabel, rfl⟩ := h
    exact ⟨hid, hstart, hstop, hle, hp, hlabel⟩
  · intro h
    obtain ⟨hid, hstart, hstop, hle, hp, hlabel⟩ := h
    exact ⟨_, i.label, ⟨_, i.predicate, ⟨_, (i.start, i.stop), ⟨i.id, hid, rfl⟩,
      ⟨hstart, hstop, hle⟩, rfl⟩, hp, rfl⟩, hlabel, rfl⟩

/-! ### The ids of the intervals -/

theorem repeatedIds_eq_nil (place : Location) (seen : List String) (items : List (Json × Nat)) :
    repeatedIds place seen items = [] ↔
      ((items.filterMap fun item => item.1.id?).Nodup ∧
        ∀ id ∈ items.filterMap fun item => item.1.id?, id ∉ seen) := by
  induction items generalizing seen with
  | nil => simp [repeatedIds]
  | cons item rest ih =>
    rw [repeatedIds]
    cases hid : item.1.id? with
    | none => simp [hid, ih]
    | some id =>
      by_cases hseen : id ∈ seen
      · simp [hid, hseen]
      · have hnew : seen.contains id = false := by simpa using hseen
        simp only [hnew, Bool.false_eq_true, if_false, ih, List.filterMap_cons, hid,
          List.nodup_cons, List.mem_cons, forall_eq_or_imp]
        constructor
        · intro h
          obtain ⟨hnodup, hfresh⟩ := h
          exact ⟨⟨fun hmem => hfresh id hmem (.inl rfl), hnodup⟩, hseen,
            fun other hother hmem => hfresh other hother (.inr hmem)⟩
        · intro h
          obtain ⟨⟨hid, hnodup⟩, -, hfresh⟩ := h
          refine ⟨hnodup, fun other hother hmem => ?_⟩
          rcases hmem with rfl | hmem
          · exact hid hother
          · exact hfresh other hother hmem

/-- An interval's id is the one that its object shows. -/
theorem IsInterval.id?_eq {json : Json} {i : Interval} (h : IsInterval json i) :
    json.id? = some i.id := by
  obtain ⟨fields, rfl, -, hfields⟩ := h
  obtain ⟨_, hget, rfl, -⟩ := hfields.id
  show (Fields.get? fields "id").bind Json.string? = some i.id
  rw [hget]
  rfl

theorem ids_of_intervals {items : List Json} {intervals : List Interval}
    (h : List.Forall₂ IsInterval items intervals) :
    items.filterMap Json.id? = intervals.map (·.id) := by
  induction h with
  | nil => rfl
  | cons hitem _ ih => rw [List.filterMap_cons, hitem.id?_eq, List.map_cons, ih]

/-- Of readable intervals the ids are known. -/
theorem HasField.intervalIds?_eq {fields : Fields} {intervals : List Interval}
    (h : HasField fields "intervals" (IsList IsInterval) intervals) :
    intervalIds? fields = some (intervals.map (·.id)) := by
  obtain ⟨_, hget, items, rfl, hitems⟩ := h
  rw [intervalIds?, rawIntervals?, hget, ← ids_of_intervals hitems]
  rfl

theorem intervals_eq_ok (fields : Fields) (found : List Interval) :
    intervals fields = .ok found ↔ HasIntervals fields found := by
  rw [intervals, Checked.also_eq_ok, Checked.report_eq_ok, repeatedIds_eq_nil,
    required_eq_ok (list_reads interval_reads)]
  have hids (h : HasField fields "intervals" (IsList IsInterval) found) :
      (((rawIntervals? fields).getD []).zipIdx.filterMap fun item => item.1.id?) =
        found.map (·.id) := by
    obtain ⟨_, hget, items, rfl, hitems⟩ := h
    have hraw : rawIntervals? fields = some items := by
      rw [rawIntervals?, hget]
      rfl
    rw [hraw, Option.getD_some, ← ids_of_intervals hitems]
    calc (items.zipIdx.filterMap fun item => item.1.id?)
        = (items.zipIdx.map Prod.fst).filterMap Json.id? := by rw [List.filterMap_map]; rfl
      _ = items.filterMap Json.id? := by rw [List.zipIdx_map_fst]
  constructor
  · intro h
    obtain ⟨⟨hnodup, -⟩, hread⟩ := h
    rw [hids hread] at hnodup
    exact ⟨hread, hnodup⟩
  · intro h
    obtain ⟨hread, hdistinct⟩ := h
    rw [hids hread]
    exact ⟨⟨hdistinct, fun _ _ => List.not_mem_nil⟩, hread⟩

/-! ### Parameters -/

theorem paramValue_eq_ok (kind : ParamKind) (place : Location) (json : Json) :
    paramValue kind place json = .ok () ↔ (kind.read? json).isSome := by
  cases kind with
  | comparator =>
    simp only [paramValue, ParamKind.read?]
    split <;> simp_all
  | threshold =>
    simp only [paramValue, ParamKind.read?]
    split
    · simp_all
    · split <;> simp_all
  | amount =>
    simp only [paramValue, ParamKind.read?]
    split
    · simp_all
    · split <;> simp_all

theorem paramField_eq_ok (place : Location) (field : String × Json) :
    paramField place field = .ok () ↔ IsParam field := by
  rw [paramField, IsParam]
  cases hname : ParamKey.ofName? field.1 with
  | none => simp
  | some found =>
    obtain ⟨key, spelling⟩ := found
    rw [paramValue_eq_ok]
    constructor
    · intro h
      exact ⟨key, spelling, rfl, h⟩
    · intro h
      obtain ⟨_, _, hsame, h⟩ := h
      cases hsame
      exact h

theorem paramFields_eq_ok (place : Location) (fields : Fields) :
    (∃ units, Checked.all (fields.map (paramField place)) = .ok units) ↔
      ∀ field ∈ fields, IsParam field := by
  induction fields with
  | nil => simp [Checked.all]
  | cons field rest ih =>
    simp only [List.map_cons, Checked.all, Checked.map₂_eq_ok, List.mem_cons, forall_eq_or_imp,
      ← ih, ← paramField_eq_ok place field]
    constructor
    · intro h
      obtain ⟨_, ⟨⟩, units, hfield, hrest, -⟩ := h
      exact ⟨hfield, units, hrest⟩
    · intro h
      obtain ⟨hfield, units, hrest⟩ := h
      exact ⟨() :: units, (), units, hfield, hrest, rfl⟩

theorem params_reads : Reads params IsParams := by
  intro place json given
  cases json with
  | null => simp [params, IsParams, eq_comm]
  | object fields =>
    simp only [params, IsParams, Checked.andThen_eq_ok, Checked.map_eq_ok, reduceCtorEq,
      false_and, false_or, Json.object.injEq, exists_eq_left', ← paramFields_eq_ok place fields]
    constructor
    · intro h
      obtain ⟨found, hfound, units, hunits, rfl⟩ := h
      cases hfound
      exact ⟨⟨units, hunits⟩, rfl⟩
    · intro h
      obtain ⟨⟨units, hunits⟩, rfl⟩ := h
      exact ⟨fields, rfl, units, hunits, rfl⟩
  | _ => simp [params, IsParams, anyObject]

theorem paramKey_reads : Reads paramKey IsParamKey := by
  intro place json key
  rw [paramKey, Checked.andThen_eq_ok, IsParamKey]
  constructor
  · intro h
    obtain ⟨name, hname, hok⟩ := h
    split at hok
    · next found spelling hfound =>
      cases hok
      exact ⟨name, spelling, (string_reads place json name).mp hname, hfound⟩
    · exact absurd hok (Checked.fail_ne_ok _ _ _)
  · intro h
    obtain ⟨name, spelling, hname, hfound⟩ := h
    refine ⟨name, (string_reads place json name).mpr hname, ?_⟩
    rw [hfound]

/-! ### Relations -/

theorem endpoint_reads (ids : List String) : Reads (endpoint (some ids)) (IsEndpoint ids) := by
  intro place json id
  rw [endpoint, Checked.andThen_eq_ok, IsEndpoint]
  constructor
  · intro h
    obtain ⟨found, hfound, hok⟩ := h
    have hok : (if ids.contains found then Checked.ok found
        else .fail place (.unknownInterval found)) = .ok id := hok
    split at hok
    · next hmem =>
      cases hok
      exact ⟨(identifier_reads place json _).mp hfound, List.contains_iff_mem.mp hmem⟩
    · exact absurd hok (Checked.fail_ne_ok _ _ _)
  · intro h
    obtain ⟨hid, hmem⟩ := h
    exact ⟨id, (identifier_reads place json id).mpr hid, if_pos (List.contains_iff_mem.mpr hmem)⟩

theorem legacyRelation_reads (ids : List String) :
    Reads (legacyRelation (some ids)) (IsLegacyRelation ids) := by
  refine object_reads fun place fields r => ?_
  simp only [Checked.seq_eq_ok, Checked.fmap_eq_ok, required_eq_ok identifier_reads,
    required_eq_ok (endpoint_reads ids), required_eq_ok (nonEmpty_reads _),
    defaulting_eq_ok params_reads, optional_eq_ok (nonEmpty_reads _),
    defaulting_eq_ok (list_reads identifier_reads)]
  constructor
  · intro h
    obtain ⟨_, constraintIds, ⟨_, allenAlias, ⟨_, params, ⟨_, operator, ⟨_, right,
      ⟨_, left, ⟨id, hid, rfl⟩, hleft, rfl⟩, hright, rfl⟩, hoperator, rfl⟩, hparams, rfl⟩,
      halias, rfl⟩, hconstraints, rfl⟩ := h
    exact ⟨hid, hleft, hright, hoperator, hparams, halias, hconstraints⟩
  · intro h
    obtain ⟨hid, hleft, hright, hoperator, hparams, halias, hconstraints⟩ := h
    exact ⟨_, r.constraintIds, ⟨_, r.allenAlias, ⟨_, r.params, ⟨_, r.operator, ⟨_, r.right,
      ⟨_, r.left, ⟨r.id, hid, rfl⟩, hleft, rfl⟩, hright, rfl⟩, hoperator, rfl⟩, hparams, rfl⟩,
      halias, rfl⟩, hconstraints, rfl⟩

theorem canonicalRelation_reads (ids : List String) :
    Reads (canonicalRelation (some ids)) (IsCanonicalRelation ids) := by
  refine object_reads fun place fields r => ?_
  simp only [Checked.seq_eq_ok, Checked.fmap_eq_ok, required_eq_ok identifier_reads,
    required_eq_ok (endpoint_reads ids), required_eq_ok (nonEmpty_reads _),
    defaulting_eq_ok params_reads, optional_eq_ok (nonEmpty_reads _),
    defaulting_eq_ok (list_reads identifier_reads)]
  constructor
  · intro h
    obtain ⟨_, label, ⟨_, constraintIds, ⟨_, params, ⟨_, operator, ⟨_, right,
      ⟨_, left, ⟨id, hid, rfl⟩, hleft, rfl⟩, hright, rfl⟩, hoperator, rfl⟩, hparams, rfl⟩,
      hconstraints, rfl⟩, hlabel, rfl⟩ := h
    exact ⟨hid, hleft, hright, hoperator, hparams, hconstraints, hlabel⟩
  · intro h
    obtain ⟨hid, hleft, hright, hoperator, hparams, hconstraints, hlabel⟩ := h
    exact ⟨_, r.label, ⟨_, r.constraintIds, ⟨_, r.params, ⟨_, r.operator, ⟨_, r.right,
      ⟨_, r.left, ⟨r.id, hid, rfl⟩, hleft, rfl⟩, hright, rfl⟩, hoperator, rfl⟩, hparams, rfl⟩,
      hconstraints, rfl⟩, hlabel, rfl⟩

/-! ### Constraints -/

theorem legacyConstraint_reads : Reads legacyConstraint IsLegacyConstraint := by
  refine object_reads fun place fields c => ?_
  simp only [Checked.seq_eq_ok, Checked.fmap_eq_ok, required_eq_ok identifier_reads,
    required_eq_ok (nonEmpty_reads _), defaulting_eq_ok anyObject_reads]
  constructor
  · intro h
    obtain ⟨_, payload, ⟨_, kind, ⟨id, hid, rfl⟩, hkind, rfl⟩, hpayload, rfl⟩ := h
    exact ⟨hid, hkind, hpayload⟩
  · intro h
    obtain ⟨hid, hkind, hpayload⟩ := h
    exact ⟨_, c.payload, ⟨_, c.kind, ⟨c.id, hid, rfl⟩, hkind, rfl⟩, hpayload, rfl⟩

theorem rawValue_eq_ok (place : Location) (fields : Fields) (key : String) (json : Json) :
    required place fields key (fun _ value => .ok value) = .ok json ↔
      fields.get? key = some json := by
  rw [required]
  cases fields.get? key <;> simp

theorem paramAssignment_eq_ok (place : Location) (fields : Fields) (pair : ParamKey × Json) :
    paramAssignment place fields = .ok pair ↔
      HasField fields "param" IsParamKey pair.1 ∧ fields.get? "value" = some pair.2 ∧
        (pair.1.kind.read? pair.2).isSome := by
  simp only [paramAssignment, Checked.andThen_eq_ok, Checked.both_eq_ok, Checked.map_eq_ok,
    required_eq_ok paramKey_reads, rawValue_eq_ok]
  constructor
  · intro h
    obtain ⟨found, ⟨hkey, hvalue⟩, ⟨⟩, hread, rfl⟩ := h
    exact ⟨hkey, hvalue, (paramValue_eq_ok _ _ _).mp hread⟩
  · intro h
    obtain ⟨hkey, hvalue, hread⟩ := h
    exact ⟨pair, ⟨hkey, hvalue⟩, (), (paramValue_eq_ok _ _ _).mpr hread, rfl⟩

theorem relationParam_eq_ok (place : Location) (fields : Fields) (c : CanonicalConstraint)
    (hkind : fields.get? "kind" = some (.string "relationParam")) :
    relationParam place (.object fields) = .ok c ↔ CanonicalConstraintFields fields c := by
  simp only [relationParam, object, Checked.also_eq_ok, unknownFields_eq_ok, Checked.seq_eq_ok,
    Checked.fmap_eq_ok, required_eq_ok identifier_reads, paramAssignment_eq_ok]
  constructor
  · intro h
    obtain ⟨honly, _, pair, ⟨_, relationId, ⟨id, hid, rfl⟩, hrelation, rfl⟩,
      ⟨hkey, hvalue, hread⟩, rfl⟩ := h
    exact .relationParam honly hkind hid hrelation hkey hvalue hread
  · intro h
    cases h with
    | relationParam honly _ hid hrelation hkey hvalue hread =>
      exact ⟨honly, _, (_, _), ⟨_, _, ⟨_, hid, rfl⟩, hrelation, rfl⟩, ⟨hkey, hvalue, hread⟩, rfl⟩
    | note _ hother =>
      rw [hkind] at hother
      simp at hother

theorem note_eq_ok (place : Location) (fields : Fields) (c : CanonicalConstraint)
    (hkind : fields.get? "kind" = some (.string "note")) :
    note place (.object fields) = .ok c ↔ CanonicalConstraintFields fields c := by
  simp only [note, object, Checked.also_eq_ok, unknownFields_eq_ok, Checked.seq_eq_ok,
    Checked.fmap_eq_ok, required_eq_ok identifier_reads, required_eq_ok string_reads]
  constructor
  · intro h
    obtain ⟨honly, _, text, ⟨id, hid, rfl⟩, htext, rfl⟩ := h
    exact .note honly hkind hid htext
  · intro h
    cases h with
    | note honly _ hid htext => exact ⟨honly, _, _, ⟨_, hid, rfl⟩, htext, rfl⟩
    | relationParam _ hother =>
      rw [hkind] at hother
      simp at hother

/-- The kind of a constraint is one of the two. -/
theorem CanonicalConstraintFields.kind_eq {fields : Fields} {c : CanonicalConstraint}
    (h : CanonicalConstraintFields fields c) :
    ∃ kind, fields.get? "kind" = some (.string kind) ∧
      (kind = "relationParam" ∨ kind = "note") := by
  cases h with
  | relationParam _ hkind => exact ⟨_, hkind, .inl rfl⟩
  | note _ hkind => exact ⟨_, hkind, .inr rfl⟩

theorem canonicalConstraint_reads : Reads canonicalConstraint IsCanonicalConstraint := by
  intro place json c
  simp only [canonicalConstraint, Checked.andThen_eq_ok, required_eq_ok string_reads,
    anyObject_reads place json]
  constructor
  · intro h
    obtain ⟨fields, rfl, kind, ⟨_, hget, rfl⟩, hok⟩ := h
    refine ⟨fields, rfl, ?_⟩
    split at hok
    · next hkind =>
      subst hkind
      exact (relationParam_eq_ok place fields c hget).mp hok
    · split at hok
      · next hkind =>
        subst hkind
        exact (note_eq_ok place fields c hget).mp hok
      · exact absurd hok (Checked.fail_ne_ok _ _ _)
  · intro h
    obtain ⟨fields, rfl, h⟩ := h
    obtain ⟨kind, hget, hkind⟩ := h.kind_eq
    refine ⟨fields, rfl, kind, ⟨_, hget, rfl⟩, ?_⟩
    rcases hkind with rfl | rfl
    · exact (relationParam_eq_ok place fields c hget).mpr h
    · exact (note_eq_ok place fields c hget).mpr h

/-! ### Documents -/

theorem selection_reads : Reads selection IsSelection := by
  refine object_reads fun place fields s => ?_
  simp only [Checked.fmap_eq_ok, required_eq_ok (list_reads identifier_reads)]
  constructor
  · intro h
    obtain ⟨ids, hids, rfl⟩ := h
    exact hids
  · intro hids
    exact ⟨s.ids, hids, rfl⟩

theorem legacyConstraints_reads (ids : List String) :
    Reads (legacyConstraints (some ids)) (IsLegacyConstraints ids) := by
  refine object_reads fun place fields parts => ?_
  simp only [Checked.both_eq_ok, defaulting_eq_ok (list_reads (legacyRelation_reads ids)),
    defaulting_eq_ok (list_reads legacyConstraint_reads)]

theorem metadata_reads : Reads metadata IsMetadata := by
  refine object_reads fun place fields m => ?_
  simp only [Checked.seq_eq_ok, Checked.fmap_eq_ok, required_eq_ok (nonEmpty_reads _),
    optional_eq_ok string_reads]
  constructor
  · intro h
    obtain ⟨_, createdAt, ⟨_, description, ⟨name, hname, rfl⟩, hdescription, rfl⟩, hcreated,
      rfl⟩ := h
    exact ⟨hname, hdescription, hcreated⟩
  · intro h
    obtain ⟨hname, hdescription, hcreated⟩ := h
    exact ⟨_, m.2.2, ⟨_, m.2.1, ⟨m.1, hname, rfl⟩, hdescription, rfl⟩, hcreated, rfl⟩

theorem canonicalConstraints_reads : Reads canonicalConstraints IsCanonicalConstraints :=
  object_reads fun place fields constraints =>
    defaulting_eq_ok (list_reads canonicalConstraint_reads) place fields "constraints" []
      constraints

theorem legacyDocument_eq_ok (fields : Fields) (d : LegacyDocument) :
    legacyDocument fields = .ok d ↔ LegacyFields fields d := by
  simp only [legacyDocument, Checked.also_eq_ok, unknownFields_eq_ok, Checked.seq_eq_ok,
    Checked.fmap_eq_ok, required_eq_ok identifier_reads, required_eq_ok (nonEmpty_reads _),
    optional_eq_ok string_reads, optional_eq_ok selection_reads, intervals_eq_ok]
  constructor
  · intro h
    obtain ⟨honly, _, selection, ⟨_, constraints, ⟨_, intervals, ⟨_, updatedAt, ⟨_, createdAt,
      ⟨_, description, ⟨_, name, ⟨id, hid, rfl⟩, hname, rfl⟩, hdescription, rfl⟩, hcreated, rfl⟩,
      hupdated, rfl⟩, hintervals, rfl⟩, hconstraints, rfl⟩, hselection, rfl⟩ := h
    rw [hintervals.read.intervalIds?_eq, defaulting_eq_ok (legacyConstraints_reads _)]
      at hconstraints
    exact ⟨honly, hid, hname, hdescription, hcreated, hupdated, hintervals, hconstraints,
      hselection⟩
  · intro h
    obtain ⟨honly, hid, hname, hdescription, hcreated, hupdated, hintervals, hconstraints,
      hselection⟩ := h
    rw [hintervals.read.intervalIds?_eq]
    refine ⟨honly, _, d.selection, ⟨_, (d.relations, d.constraints), ⟨_, d.intervals,
      ⟨_, d.updatedAt, ⟨_, d.createdAt, ⟨_, d.description, ⟨_, d.name, ⟨d.id, hid, rfl⟩, hname,
      rfl⟩, hdescription, rfl⟩, hcreated, rfl⟩, hupdated, rfl⟩, hintervals, rfl⟩, ?_, rfl⟩,
      hselection, rfl⟩
    exact (defaulting_eq_ok (legacyConstraints_reads _) _ _ _ _ _).mpr hconstraints

theorem canonicalDocument_eq_ok (fields : Fields) (d : CanonicalDocument) :
    canonicalDocument fields = .ok d ↔ CanonicalFields fields d := by
  simp only [canonicalDocument, Checked.also_eq_ok, unknownFields_eq_ok, Checked.seq_eq_ok,
    Checked.fmap_eq_ok, required_eq_ok identifier_reads, required_eq_ok metadata_reads,
    defaulting_eq_ok canonicalConstraints_reads, optional_eq_ok selection_reads, intervals_eq_ok]
  constructor
  · intro h
    obtain ⟨honly, _, selection, ⟨_, constraints, ⟨_, relations, ⟨_, intervals, ⟨_, metadata,
      ⟨id, hid, rfl⟩, hmetadata, rfl⟩, hintervals, rfl⟩, hrelations, rfl⟩, hconstraints, rfl⟩,
      hselection, rfl⟩ := h
    rw [hintervals.read.intervalIds?_eq,
      defaulting_eq_ok (list_reads (canonicalRelation_reads _))] at hrelations
    exact ⟨honly, hid, hmetadata, hintervals, hrelations, hconstraints, hselection⟩
  · intro h
    obtain ⟨honly, hid, hmetadata, hintervals, hrelations, hconstraints, hselection⟩ := h
    rw [hintervals.read.intervalIds?_eq]
    refine ⟨honly, _, d.selection, ⟨_, d.constraints, ⟨_, d.relations, ⟨_, d.intervals,
      ⟨_, (d.name, d.description, d.createdAt), ⟨d.id, hid, rfl⟩, hmetadata, rfl⟩, hintervals,
      rfl⟩, ?_, rfl⟩, hconstraints, rfl⟩, hselection, rfl⟩
    exact (defaulting_eq_ok (list_reads (canonicalRelation_reads _)) _ _ _ _ _).mpr hrelations

theorem checked_eq_ok_iff (input : Json) (doc : Document) :
    checked input = .ok doc ↔ IsDocument input doc := by
  cases input with
  | object fields =>
    simp only [checked, IsDocument, Json.object.injEq, exists_eq_left', HasField, IsText]
    cases hversion : Fields.get? fields "schemaVersion" with
    | none => simp
    | some version =>
      simp only [Option.some.injEq, exists_eq_left']
      by_cases hlegacy : version = .string legacyVersion
      · subst hlegacy
        cases doc <;>
          simp [Json.string?, legacyDocument_eq_ok, DocumentFields, Document.version,
            legacyVersion, canonicalVersion]
      · by_cases hcanonical : version = .string canonicalVersion
        · subst hcanonical
          cases doc <;>
            simp [Json.string?, canonicalDocument_eq_ok, DocumentFields, Document.version,
              legacyVersion, canonicalVersion]
        · have hneither (name : String) (hne : version ≠ .string name) :
              version.string? ≠ some name := by
            cases version <;> simp_all [Json.string?]
          cases doc <;>
            simp [hneither _ hlegacy, hneither _ hcanonical, hlegacy, hcanonical, Document.version]
  | _ => simp [checked, IsDocument]

/-- **A document is accepted exactly when it is one of the grammar.** -/
theorem check_eq_ok_iff (input : Json) (doc : Document) :
    check input = .ok doc ↔ IsDocument input doc := by
  rw [← checked_eq_ok_iff, check]
  cases checked input <;> simp

/-- To see that something comes out and passes a test, it is enough to run both. -/
theorem exists_of_any {ε α : Type} {result : Except ε α} {p : α → Bool}
    (h : result.toOption.any p = true) : ∃ a, result = .ok a ∧ p a = true := by
  cases result with
  | error _ => cases h
  | ok a => exact ⟨a, rfl, h⟩

theorem exists_of_check_any {input : Json} {p : Document → Bool}
    (h : (check input).toOption.any p = true) : ∃ doc, check input = .ok doc ∧ p doc = true :=
  exists_of_any h

end EventPattern.Document
