import EventPattern.Document.Model
import EventPattern.Proofs.Document.Shape
import EventPattern.Proofs.Json.Records
import EventPattern.Proofs.Param.Reading

/-! What every document of the grammar is like.

A document that was read off JSON says nothing of how it was written any more, but it keeps
what the grammar asks of it: texts that must not be empty are not, intervals start before they
stop and have distinct ids, relations stand between intervals, and every authored parameter
can be read. `IsDocument.proper` collects this as `Document.Proper`. -/
namespace EventPattern

/-! ### Parts of documents -/

structure Predicate.Proper (p : Predicate) : Prop where
  name : p.name ≠ ""
  args : ∀ arg ∈ p.args, arg ≠ ""

structure Interval.Proper (i : Interval) : Prop where
  id : i.id ≠ ""
  ordered : i.start ≤ i.stop
  predicate : i.predicate.Proper
  label : ∀ label ∈ i.label, label ≠ ""

/-- Under either spelling there is only what can be read. -/
structure AuthoredParams.Proper (params : AuthoredParams) : Prop where
  latin : ∀ key json, params.latin.get key = some json → (key.kind.read? json).isSome
  greek : ∀ key json, params.greek.get key = some json → (key.kind.read? json).isSome

/-- A relation between intervals of the given ids. -/
structure Relation.Proper (ids : List String) (r : Relation (Option AuthoredParams)) : Prop where
  id : r.id ≠ ""
  left : r.left ≠ "" ∧ r.left ∈ ids
  right : r.right ≠ "" ∧ r.right ∈ ids
  operator : r.operator ≠ ""
  params : ∀ params ∈ r.params, params.Proper
  constraintIds : ∀ id ∈ r.constraintIds, id ≠ ""
  label : ∀ label ∈ r.label, label ≠ ""

structure LegacyRelation.Proper (ids : List String) (r : LegacyRelation) : Prop where
  relation : r.relation.Proper ids
  allenAlias : ∀ name ∈ r.allenAlias, name ≠ ""

structure LegacyConstraint.Proper (c : LegacyConstraint) : Prop where
  id : c.id ≠ ""
  kind : c.kind ≠ ""

def CanonicalConstraint.Proper : CanonicalConstraint → Prop
  | relationParam id relationId key value =>
    id ≠ "" ∧ relationId ≠ "" ∧ (key.kind.read? value).isSome
  | note id _ => id ≠ ""

def Selection.Proper (s : Selection) : Prop := ∀ id ∈ s.ids, id ≠ ""

/-! ### Documents -/

structure LegacyDocument.Proper (d : LegacyDocument) : Prop where
  id : d.id ≠ ""
  name : d.name ≠ ""
  intervals : ∀ i ∈ d.intervals, i.Proper
  distinct : (d.intervals.map (·.id)).Nodup
  relations : ∀ r ∈ d.relations, r.Proper (d.intervals.map (·.id))
  constraints : ∀ c ∈ d.constraints, c.Proper
  selection : ∀ s ∈ d.selection, s.Proper

structure CanonicalDocument.Proper (d : CanonicalDocument) : Prop where
  id : d.id ≠ ""
  name : d.name ≠ ""
  intervals : ∀ i ∈ d.intervals, i.Proper
  distinct : (d.intervals.map (·.id)).Nodup
  relations : ∀ r ∈ d.relations, r.Proper (d.intervals.map (·.id))
  constraints : ∀ c ∈ d.constraints, c.Proper
  selection : ∀ s ∈ d.selection, s.Proper

def Document.Proper : Document → Prop
  | legacy d => d.Proper
  | canonical d => d.Proper

/-- Whatever counts as written can be read. -/
theorem AuthoredParams.Proper.effective {params : AuthoredParams} (h : params.Proper)
    {key : ParamKey} {raw : Json} (heffective : params.effective key = some raw) :
    (key.kind.read? raw).isSome := by
  rcases Option.or_eq_some_iff.mp heffective with hlatin | ⟨-, hgreek⟩
  · exact h.latin key raw hlatin
  · exact h.greek key raw hgreek

theorem Document.Proper.distinct {doc : Document} (h : doc.Proper) :
    (doc.model.intervals.map (·.id)).Nodup := by
  cases doc with
  | legacy d => exact LegacyDocument.Proper.distinct h
  | canonical d => exact CanonicalDocument.Proper.distinct h

theorem Document.Proper.relation {doc : Document} (h : doc.Proper) :
    ∀ r ∈ doc.model.relations, r.Proper (doc.model.intervals.map (·.id)) := by
  intro r hr
  cases doc with
  | legacy d =>
    obtain ⟨written, hwritten, rfl⟩ := List.mem_map.mp hr
    exact (LegacyDocument.Proper.relations h written hwritten).relation
  | canonical d => exact CanonicalDocument.Proper.relations h r hr

namespace Document

open Json (Fields)

variable {α : Type}

/-! ### Reading makes proper parts -/

theorem HasField.ne {fields : Fields} {key text : String}
    (h : HasField fields key IsNonEmpty text) : text ≠ "" := by
  obtain ⟨_, _, _, hne⟩ := h
  exact hne

theorem HasField.endpoint {fields : Fields} {key id : String} {ids : List String}
    (h : HasField fields key (IsEndpoint ids) id) : id ≠ "" ∧ id ∈ ids := by
  obtain ⟨_, _, ⟨_, hne⟩, hmem⟩ := h
  exact ⟨hne, hmem⟩

theorem MayHaveField.imp {fields : Fields} {key : String} {shape : Shape α} {given : Option α}
    {P : α → Prop} (h : MayHaveField fields key shape given)
    (himp : ∀ json a, shape json a → P a) : ∀ a ∈ given, P a := by
  rcases h with ⟨_, rfl⟩ | ⟨json, _, value, rfl, hshape⟩
  · intro _ hnone
    cases hnone
  · intro a ha
    cases ha
    exact himp json value hshape

theorem HasField.imp {fields : Fields} {key : String} {shape : Shape α} {values : List α}
    {P : α → Prop} (h : HasField fields key (IsList shape) values)
    (himp : ∀ json a, shape json a → P a) : ∀ a ∈ values, P a := by
  obtain ⟨_, -, items, -, hitems⟩ := h
  induction hitems with
  | nil => nofun
  | cons hitem _ ih =>
    intro a ha
    rcases List.mem_cons.mp ha with rfl | ha
    · exact himp _ _ hitem
    · exact ih a ha

theorem HasFieldOr.imp {fields : Fields} {key : String} {shape : Shape α} {values : List α}
    {P : α → Prop} (h : HasFieldOr fields key [] (IsList shape) values)
    (himp : ∀ json a, shape json a → P a) : ∀ a ∈ values, P a := by
  rcases h with ⟨_, rfl⟩ | h
  · intro _ hnone
    cases hnone
  · exact h.imp himp

theorem IsPredicate.proper {json : Json} {p : Predicate} (h : IsPredicate json p) :
    p.Proper := by
  obtain ⟨fields, _, _, hfields⟩ := h
  exact ⟨hfields.name.ne, hfields.args.imp fun _ _ h => h.2⟩

theorem IsInterval.proper {json : Json} {i : Interval} (h : IsInterval json i) : i.Proper := by
  obtain ⟨fields, _, _, hfields⟩ := h
  obtain ⟨_, _, hpredicate⟩ := hfields.predicate
  exact ⟨hfields.id.ne, hfields.ordered, hpredicate.proper, hfields.label.imp fun _ _ h => h.2⟩

/-- The fields under the names of a key hold what that key reads. -/
theorem readable_of_isParam {fields : Fields} (h : ∀ field ∈ fields, IsParam field)
    {key : ParamKey} {json : Json} (spelling : Spelling)
    (hget : fields.get? (key.spelled spelling) = some json) : (key.kind.read? json).isSome := by
  obtain ⟨found, _, hname, hread⟩ := h _ (Json.Fields.mem_of_get? hget)
  rw [ParamKey.ofName?_spelled] at hname
  cases hname
  exact hread

theorem IsParams.proper {json : Json} {given : Option AuthoredParams} (h : IsParams json given) :
    ∀ params ∈ given, params.Proper := by
  rcases h with ⟨_, rfl⟩ | ⟨fields, _, hfields, rfl⟩
  · intro _ hnone
    cases hnone
  · intro params hparams
    cases hparams
    refine ⟨fun key raw hget => ?_, fun key raw hget => ?_⟩
    · rw [AuthoredParams.get_latin_ofFields] at hget
      exact readable_of_isParam hfields .latin hget
    · rw [AuthoredParams.get_greek_ofFields] at hget
      exact readable_of_isParam hfields .greek hget

theorem HasFieldOr.params {fields : Fields} {key : String} {given : Option AuthoredParams}
    (h : HasFieldOr fields key none IsParams given) : ∀ params ∈ given, params.Proper := by
  rcases h with ⟨_, rfl⟩ | ⟨_, _, h⟩
  · intro _ hnone
    cases hnone
  · exact h.proper

theorem IsLegacyRelation.proper {ids : List String} {json : Json} {r : LegacyRelation}
    (h : IsLegacyRelation ids json r) : r.Proper ids := by
  obtain ⟨fields, _, _, hfields⟩ := h
  have hrelation : r.relation.Proper ids := {
    id := hfields.id.ne
    left := hfields.left.endpoint
    right := hfields.right.endpoint
    operator := hfields.operator.ne
    params := hfields.params.params
    constraintIds := hfields.constraintIds.imp fun _ _ h => h.2
    label := fun _ h => nomatch h }
  exact ⟨hrelation, hfields.allenAlias.imp fun _ _ h => h.2⟩

theorem IsCanonicalRelation.proper {ids : List String} {json : Json}
    {r : Relation (Option AuthoredParams)} (h : IsCanonicalRelation ids json r) :
    r.Proper ids := by
  obtain ⟨fields, _, _, hfields⟩ := h
  exact {
    id := hfields.id.ne
    left := hfields.left.endpoint
    right := hfields.right.endpoint
    operator := hfields.operator.ne
    params := hfields.params.params
    constraintIds := hfields.constraintIds.imp fun _ _ h => h.2
    label := hfields.label.imp fun _ _ h => h.2 }

theorem IsLegacyConstraint.proper {json : Json} {c : LegacyConstraint}
    (h : IsLegacyConstraint json c) : c.Proper := by
  obtain ⟨fields, _, _, hfields⟩ := h
  exact ⟨hfields.id.ne, hfields.kind.ne⟩

theorem IsCanonicalConstraint.proper {json : Json} {c : CanonicalConstraint}
    (h : IsCanonicalConstraint json c) : c.Proper := by
  obtain ⟨fields, _, hfields⟩ := h
  cases hfields with
  | relationParam _ _ hid hrelation _ _ hread => exact ⟨hid.ne, hrelation.ne, hread⟩
  | note _ _ hid _ => exact hid.ne

theorem IsSelection.proper {json : Json} {s : Selection} (h : IsSelection json s) :
    s.Proper := by
  obtain ⟨fields, _, _, hids⟩ := h
  exact hids.imp fun _ _ h => h.2

/-! ### Reading makes proper documents -/

theorem LegacyFields.proper {fields : Fields} {d : LegacyDocument} (h : LegacyFields fields d) :
    d.Proper := by
  have hparts : (∀ r ∈ d.relations, r.Proper (d.intervals.map (·.id))) ∧
      ∀ c ∈ d.constraints, c.Proper := by
    rcases h.constraints with ⟨_, hempty⟩ | ⟨_, _, _, _, _, hrelations, hconstraints⟩
    · obtain ⟨hrelations, hconstraints⟩ := Prod.mk.inj hempty
      rw [hrelations, hconstraints]
      exact ⟨fun _ h => absurd h List.not_mem_nil, fun _ h => absurd h List.not_mem_nil⟩
    · exact ⟨hrelations.imp fun _ _ => IsLegacyRelation.proper,
        hconstraints.imp fun _ _ => IsLegacyConstraint.proper⟩
  exact {
    id := h.id.ne
    name := h.name.ne
    intervals := h.intervals.read.imp fun _ _ => IsInterval.proper
    distinct := h.intervals.distinct
    relations := hparts.1
    constraints := hparts.2
    selection := h.selection.imp fun _ _ => IsSelection.proper }

theorem CanonicalFields.proper {fields : Fields} {d : CanonicalDocument}
    (h : CanonicalFields fields d) : d.Proper := by
  have hname : d.name ≠ "" := by
    obtain ⟨_, _, _, _, _, hmetadata⟩ := h.metadata
    exact hmetadata.name.ne
  have hconstraints : ∀ c ∈ d.constraints, c.Proper := by
    rcases h.constraints with ⟨_, hempty⟩ | ⟨_, _, _, _, _, hconstraints⟩
    · rw [hempty]
      exact fun _ h => absurd h List.not_mem_nil
    · exact hconstraints.imp fun _ _ => IsCanonicalConstraint.proper
  exact {
    id := h.id.ne
    name := hname
    intervals := h.intervals.read.imp fun _ _ => IsInterval.proper
    distinct := h.intervals.distinct
    relations := h.relations.imp fun _ _ => IsCanonicalRelation.proper
    constraints := hconstraints
    selection := h.selection.imp fun _ _ => IsSelection.proper }

/-- **What the grammar asks for holds of every document that was read.** -/
theorem IsDocument.proper {json : Json} {doc : Document} (h : IsDocument json doc) :
    doc.Proper := by
  obtain ⟨fields, _, _, hfields⟩ := h
  cases doc with
  | legacy d => exact LegacyFields.proper hfields
  | canonical d => exact CanonicalFields.proper hfields

end Document
end EventPattern
