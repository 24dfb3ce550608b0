import EventPattern.Proofs.Document.Acceptance
import EventPattern.Proofs.Document.Written
import EventPattern.Proofs.Resolution.Twice

/-! Resolved models wrapped as documents.

A model that comes of a proper document fits the shape of that document again after it is
resolved: nothing that the shape cannot hold has got in. So the document it is wrapped in
passes the check, and its model is the resolved one with all parameters spelled out
(`check_toDocument`). -/
namespace EventPattern

/-! ### Relations -/

theorem AuthoredParams.proper_ofTyped {params : TypedParams} (h : params.Readable) :
    (ofTyped params).Proper := by
  refine ⟨fun key json hget => ?_, fun key json hget => ?_⟩
  · rw [get_latin_ofTyped] at hget
    obtain ⟨value, hvalue, rfl⟩ := Option.map_eq_some_iff.mp hget
    rw [ParamKind.read?_toJson (h key value hvalue)]
    rfl
  · rw [get_greek_ofTyped] at hget
    cases hget

theorem Relation.Proper.reauthor {catalog : Catalog} {ids others : List String}
    {r : Relation (Option AuthoredParams)} (hr : r.Proper ids) (h : catalog.WellFormed)
    (hids : ids ⊆ others) : (r.resolve catalog).reauthor.Proper others := by
  refine ⟨hr.id, ⟨hr.left.1, hids hr.left.2⟩, ⟨hr.right.1, hids hr.right.2⟩, ?_, ?_,
    hr.constraintIds, hr.label⟩
  · show resolvedOperator catalog r ≠ ""
    unfold resolvedOperator
    cases hbase : base? catalog r with
    | none => exact hr.operator
    | some base => exact (h.operators base (base?_mem r h hbase).1).code
  · intro params hparams
    cases hparams
    exact AuthoredParams.proper_ofTyped (readable_resolvedParams r h)

/-! ### Constraints -/

theorem ConstraintKind.name_ofName (name : String) : (ofName name).name = name := by
  unfold ofName
  split
  · next h => exact h.symm
  · split
    · next h => exact h.symm
    · split
      · next h => exact h.symm
      · split
        · next h => exact h.symm
        · split
          · next h => exact h.symm
          · rfl

theorem LegacyConstraint.constraint_toLegacy (c : LegacyConstraint) :
    c.constraint.resolve.toLegacy.constraint = c.constraint.resolve := by
  show Constraint.mk c.id (.ofName (ConstraintKind.ofName c.kind).name) _ _ = _
  rw [ConstraintKind.name_ofName]
  rfl

theorem LegacyConstraint.Proper.toLegacy {c : LegacyConstraint} (h : c.Proper) :
    c.constraint.resolve.toLegacy.Proper := by
  refine ⟨h.id, ?_⟩
  show (ConstraintKind.ofName c.kind).name ≠ ""
  rw [ConstraintKind.name_ofName]
  exact h.kind

/-- A value that can be read has nothing inside to put into order. -/
theorem Json.sortById_of_read? {kind : ParamKind} {json : Json} (h : (kind.read? json).isSome) :
    json.sortById = json := by
  cases json with
  | array items => cases kind <;> cases h
  | object fields => cases kind <;> cases h
  | _ => rfl

theorem CanonicalConstraint.Proper.resolve_constraint {c : CanonicalConstraint} (h : c.Proper) :
    c.constraint.resolve = c.constraint := by
  cases c with
  | relationParam id relationId key value =>
    have hvalue := Json.sortById_of_read? h.2.2
    show Constraint.mk id .relationParam [("param", .string key.latin),
      ("relationId", .string relationId), ("value", value.sortById)] [] = _
    rw [hvalue]
    rfl
  | note id text => rfl

theorem CanonicalConstraint.toCanonical?_constraint (c : CanonicalConstraint) :
    c.constraint.toCanonical? = some c := by
  cases c with
  | relationParam id relationId key value =>
    simp [constraint, Constraint.toCanonical?, Constraint.field?, Json.string?,
      ParamKey.ofName?_latin]
  | note id text => simp [constraint, Constraint.toCanonical?, Constraint.field?, Json.string?]

/-- What is taken apart and put together again is what it was. -/
theorem map_filterMap_of_inverse {α β : Type} {f : α → Option β} {g : β → α} {items : List α}
    (h : ∀ a ∈ items, ∃ b, f a = some b ∧ g b = a) : (items.filterMap f).map g = items := by
  induction items with
  | nil => rfl
  | cons a rest ih =>
    obtain ⟨b, hb, hg⟩ := h a (List.mem_cons_self ..)
    rw [List.filterMap_cons, hb, List.map_cons, hg, ih fun x hx => h x (List.mem_cons_of_mem _ hx)]

/-! ### Documents -/

variable {catalog : Catalog}

/-- Sorting the intervals keeps which ids there are, and relations stand between them. -/
theorem Document.Proper.reauthor {doc : Document} (hdoc : doc.Proper) (h : catalog.WellFormed) :
    ∀ r ∈ (doc.model.resolve catalog).relations,
      r.reauthor.Proper ((doc.model.resolve catalog).intervals.map (·.id)) := by
  intro r hr
  obtain ⟨authored, hauthored, rfl⟩ := AuthoredModel.mem_relations_resolve.mp hr
  refine (hdoc.relation authored hauthored).reauthor h fun id hid => ?_
  exact (doc.model.ids_resolve_perm catalog).mem_iff.mpr hid

theorem LegacyDocument.Proper.toLegacy {d : LegacyDocument} (hd : d.Proper)
    (h : catalog.WellFormed) : (d.model.resolve catalog).toLegacy.Proper := by
  have hdoc : (Document.legacy d).Proper := hd
  exact {
    id := hd.id
    name := hd.name
    intervals := fun i hi => hd.intervals i ((d.model.intervals_resolve_perm catalog).mem_iff.mp hi)
    distinct := (d.model.ids_resolve_perm catalog).nodup_iff.mpr hd.distinct
    relations := by
      intro r hr
      obtain ⟨resolved, hresolved, rfl⟩ := List.mem_map.mp hr
      have hproper := hdoc.reauthor h resolved hresolved
      exact ⟨⟨hproper.id, hproper.left, hproper.right, hproper.operator, hproper.params,
        hproper.constraintIds, fun _ hnone => nomatch hnone⟩, fun _ hnone => nomatch hnone⟩
    constraints := by
      intro c hc
      obtain ⟨resolved, hresolved, rfl⟩ := List.mem_map.mp hc
      obtain ⟨_, hmodel, rfl⟩ := AuthoredModel.mem_constraints_resolve.mp hresolved
      obtain ⟨written, hwritten, rfl⟩ := List.mem_map.mp hmodel
      exact (hd.constraints written hwritten).toLegacy
    selection := hd.selection }

theorem LegacyDocument.model_toLegacy (d : LegacyDocument) :
    (d.model.resolve catalog).toLegacy.model = (d.model.resolve catalog).reauthor := by
  have hrelations : (d.model.resolve catalog).toLegacy.relations.map LegacyRelation.relation =
      (d.model.resolve catalog).relations.map Relation.reauthor := by
    show ((d.model.resolve catalog).relations.map _).map _ = _
    rw [List.map_map]
    refine List.map_congr_left fun r hr => ?_
    obtain ⟨_, hmodel, rfl⟩ := AuthoredModel.mem_relations_resolve.mp hr
    obtain ⟨written, -, rfl⟩ := List.mem_map.mp hmodel
    rfl
  have hconstraints : (d.model.resolve catalog).toLegacy.constraints.map
      LegacyConstraint.constraint = (d.model.resolve catalog).constraints := by
    show ((d.model.resolve catalog).constraints.map _).map _ = _
    rw [List.map_map]
    refine (List.map_congr_left fun c hc => ?_).trans (List.map_id _)
    obtain ⟨_, hmodel, rfl⟩ := AuthoredModel.mem_constraints_resolve.mp hc
    obtain ⟨written, -, rfl⟩ := List.mem_map.mp hmodel
    exact written.constraint_toLegacy
  show Model.mk _ _ _ _ _
    ((d.model.resolve catalog).toLegacy.relations.map LegacyRelation.relation)
    ((d.model.resolve catalog).toLegacy.constraints.map LegacyConstraint.constraint) _ _ = _
  rw [hrelations, hconstraints]
  rfl

/-- Every constraint of the resolved model is one of the canonical shape still. -/
theorem CanonicalDocument.Proper.canonical_of_resolved {d : CanonicalDocument} (hd : d.Proper) :
    ∀ c ∈ (d.model.resolve catalog).constraints,
      ∃ written : CanonicalConstraint, written.Proper ∧ c = written.constraint := by
  intro c hc
  obtain ⟨_, hmodel, rfl⟩ := AuthoredModel.mem_constraints_resolve.mp hc
  obtain ⟨written, hwritten, rfl⟩ := List.mem_map.mp hmodel
  have hproper := hd.constraints written hwritten
  exact ⟨written, hproper, hproper.resolve_constraint⟩

theorem CanonicalDocument.Proper.toCanonical {d : CanonicalDocument} (hd : d.Proper)
    (h : catalog.WellFormed) : (d.model.resolve catalog).toCanonical.Proper := by
  have hdoc : (Document.canonical d).Proper := hd
  exact {
    id := hd.id
    name := hd.name
    intervals := fun i hi => hd.intervals i ((d.model.intervals_resolve_perm catalog).mem_iff.mp hi)
    distinct := (d.model.ids_resolve_perm catalog).nodup_iff.mpr hd.distinct
    relations := by
      intro r hr
      obtain ⟨resolved, hresolved, rfl⟩ := List.mem_map.mp hr
      exact hdoc.reauthor h resolved hresolved
    constraints := by
      intro c hc
      obtain ⟨resolved, hresolved, hcanonical⟩ := List.mem_filterMap.mp hc
      obtain ⟨written, hproper, rfl⟩ := hd.canonical_of_resolved resolved hresolved
      rw [CanonicalConstraint.toCanonical?_constraint] at hcanonical
      cases hcanonical
      exact hproper
    selection := hd.selection }

theorem CanonicalDocument.Proper.model_toCanonical {d : CanonicalDocument} (hd : d.Proper) :
    (d.model.resolve catalog).toCanonical.model = (d.model.resolve catalog).reauthor := by
  have hconstraints : (d.model.resolve catalog).toCanonical.constraints.map
      CanonicalConstraint.constraint = (d.model.resolve catalog).constraints := by
    refine map_filterMap_of_inverse fun c hc => ?_
    obtain ⟨written, -, rfl⟩ := hd.canonical_of_resolved c hc
    exact ⟨written, written.toCanonical?_constraint, rfl⟩
  show Model.mk _ _ _ _ _ _
    ((d.model.resolve catalog).toCanonical.constraints.map CanonicalConstraint.constraint) _ _ = _
  rw [hconstraints]
  rfl

/-- **A resolved model is read back from the document it is wrapped in.** -/
theorem Document.Proper.check_toDocument {doc : Document} (hdoc : doc.Proper)
    (h : catalog.WellFormed) :
    ∃ again, Document.check (doc.model.resolve catalog).toDocument = .ok again ∧
      again.model = (doc.model.resolve catalog).reauthor := by
  cases doc with
  | legacy d =>
    have hproper : (Document.legacy (d.model.resolve catalog).toLegacy).Proper :=
      LegacyDocument.Proper.toLegacy hdoc h
    exact ⟨_, (check_eq_ok_iff _ _).mpr (isDocument_toJson hproper), d.model_toLegacy⟩
  | canonical d =>
    have hproper : (Document.canonical (d.model.resolve catalog).toCanonical).Proper :=
      CanonicalDocument.Proper.toCanonical hdoc h
    exact ⟨_, (check_eq_ok_iff _ _).mpr (isDocument_toJson hproper),
      CanonicalDocument.Proper.model_toCanonical hdoc⟩

end EventPattern
