import EventPattern.Iseql.Text
import EventPattern.Proofs.Document.Rearranging
import EventPattern.Resolution
import Mathlib.Data.List.Nodup

/-! The order that an author chooses.

A resolved model has all its parts in the order of their ids, so where ids are distinct the order
they came in is gone (`Shuffle.sortOn`). The constraints that a relation refers to are kept as
they are, but the text shows them sorted and each of them once (`extras_alike`). The trail is
sorted by what its entries say; entries that say the same come of one relation, in the order in
which they are made (`AuthoredModel.Rearranged.trail_eq`). -/
namespace EventPattern

/-! ### Relations -/

namespace Relation.Alike

variable {catalog : Catalog} {r other : Relation (Option AuthoredParams)}

theorem resolve (h : r.Alike other) : (r.resolve catalog).Alike (other.resolve catalog) := by
  obtain ⟨hframe, hreferences⟩ := h
  rw [hframe]
  exact ⟨rfl, hreferences⟩

theorem explanations (h : r.Alike other) :
    Relation.explanations catalog other = Relation.explanations catalog r := by
  rw [h.frame]
  rfl

theorem id_eq {P : Type} {r other : Relation P} (h : r.Alike other) : r.id = other.id := by
  rw [h.frame]

end Relation.Alike

theorem target_of_explanation {catalog : Catalog} {r : Relation (Option AuthoredParams)}
    {e : Explanation} (h : e ∈ r.explanations catalog) : e.sortKey.head? = some r.id := by
  obtain ⟨decision, -, rfl⟩ := List.mem_map.mp h
  rfl

/-! ### The text -/

namespace Iseql

theorem Extra.before_iff (a b : Extra) :
    a.before b = true ↔
      a.rank < b.rank ∨ a.rank = b.rank ∧ a.constraint.id ≤ b.constraint.id := by
  unfold before
  split
  · next hrank => simp [hrank]
  · next hrank => simp [hrank]

theorem Extra.before_total (a b : Extra) : a.before b = true ∨ b.before a = true := by
  rw [before_iff, before_iff]
  rcases Nat.lt_trichotomy a.rank b.rank with hlt | heq | hgt
  · exact .inl (.inl hlt)
  · rcases Std.IsLinearPreorder.le_total a.constraint.id b.constraint.id with hle | hle
    · exact .inl (.inr ⟨heq, hle⟩)
    · exact .inr (.inr ⟨heq.symm, hle⟩)
  · exact .inr (.inl hgt)

theorem Extra.before_trans (a b c : Extra) (hab : a.before b = true) (hbc : b.before c = true) :
    a.before c = true := by
  rw [before_iff] at *
  rcases hab with hab | ⟨hab, hle⟩
  · rcases hbc with hbc | ⟨hbc, -⟩
    · exact .inl (hab.trans hbc)
    · exact .inl (hbc ▸ hab)
  · rcases hbc with hbc | ⟨hbc, hle'⟩
    · exact .inl (hab ▸ hbc)
    · exact .inr ⟨hab.trans hbc, Std.IsPreorder.le_trans _ _ _ hle hle'⟩

theorem Extra.id_eq_of_before {a b : Extra} (hab : a.before b = true) (hba : b.before a = true) :
    a.constraint.id = b.constraint.id := by
  rw [before_iff] at *
  rcases hab with hab | ⟨hab, hle⟩
  · rcases hba with hba | ⟨hba, -⟩ <;> omega
  · rcases hba with hba | ⟨-, hle'⟩
    · omega
    · exact Std.IsPartialOrder.le_antisymm _ _ hle hle'

variable {m other : ResolvedModel} {r s : Relation TypedParams}

/-- What is shown of the constraint that an id leads to. -/
def extraOf (m : ResolvedModel) (id : String) : Option Extra := (m.constraint? id).bind extra?

theorem id_of_extraOf {id : String} {e : Extra} (h : extraOf m id = some e) :
    e.constraint.id = id := by
  obtain ⟨c, hc, hextra⟩ := Option.bind_eq_some_iff.mp h
  obtain ⟨_, -, rfl⟩ := Option.map_eq_some_iff.mp hextra
  unfold Model.constraint? at hc
  have hid := List.find?_some hc
  exact beq_iff_eq.mp hid

/-- **The constraints of a relation are shown in an order of their own**, each of them once. -/
theorem extras_alike (hconstraints : other.constraints = m.constraints) (h : r.Alike s) :
    extras other s = extras m r := by
  have hextra : (fun id => (other.constraint? id).bind extra?) = extraOf m := by
    funext id
    rw [extraOf, Model.constraint?, Model.constraint?, hconstraints]
  have hperm := (eraseDups_perm h.references).filterMap (extraOf m)
  rw [extras, extras, hextra]
  refine (sortBy_eq_of_perm Extra.before_total Extra.before_trans (fun a ha b hb hab hba => ?_)
    hperm).symm
  obtain ⟨id, -, hid⟩ := List.mem_filterMap.mp ha
  obtain ⟨id', -, hid'⟩ := List.mem_filterMap.mp hb
  have hsame : id = id' :=
    (id_of_extraOf hid).symm.trans ((Extra.id_eq_of_before hab hba).trans (id_of_extraOf hid'))
  subst hsame
  exact Option.some.inj (hid.symm.trans hid')

theorem relationLine_alike (c : Catalog) (hconstraints : other.constraints = m.constraints)
    (h : r.Alike s) : relationLine other c s = relationLine m c r := by
  rw [relationLine, relationLine, extras_alike hconstraints h, h.frame]

theorem selectedRelations_alike (hselection : other.selection = m.selection)
    (h : List.Forall₂ Relation.Alike m.relations other.relations) :
    List.Forall₂ Relation.Alike (selectedRelations m) (selectedRelations other) := by
  unfold selectedRelations
  rw [hselection]
  dsimp only
  split
  · refine forall₂_sortBy (fun a a' ha b b' hb => ?_) h
    rw [ha.id_eq, hb.id_eq]
  · exact forall₂_filterMap (fun id => forall₂_find? (fun a b hab => by rw [hab.id_eq]) h) _

/-- Models that differ in the references of their relations have the same text. -/
theorem text_alike (c : Catalog) (hframe : other = { m with relations := other.relations })
    (h : List.Forall₂ Relation.Alike m.relations other.relations) : text other c = text m c := by
  have hselection : other.selection = m.selection := by rw [hframe]
  have hconstraints : other.constraints = m.constraints := by rw [hframe]
  have hintervals : other.intervals = m.intervals := by rw [hframe]
  have hname : headerName other = headerName m := by
    rw [hframe]
    rfl
  have hselected := selectedRelations_alike hselection h
  have hlines : (selectedRelations other).map (relationLine other c) =
      (selectedRelations m).map (relationLine m c) := by
    rw [← List.forall₂_eq_eq_eq, List.forall₂_map_left_iff, List.forall₂_map_right_iff]
    exact hselected.flip.imp fun s r hrs => relationLine_alike c hconstraints hrs
  rw [text, text, lines, lines, hname, hintervals, hlines, hselected.length_eq]

end Iseql

/-! ### Models -/

/-- The parts that sorting by id puts in order have different ids. -/
structure AuthoredModel.Distinct (m : AuthoredModel) : Prop where
  intervals : (m.intervals.map (·.id)).Nodup
  relations : (m.relations.map (·.id)).Nodup
  constraints : (m.constraints.map (·.id)).Nodup

/-- The trail shows what the relations of an id have to explain, and nothing else. -/
theorem filter_explanations (catalog : Catalog)
    (relations : List (Relation (Option AuthoredParams))) (key : List String) :
    (relations.flatMap (Relation.explanations catalog)).filter (·.sortKey = key) =
      ((relations.filter (some ·.id = key.head?)).flatMap (Relation.explanations catalog)).filter
        (·.sortKey = key) := by
  induction relations with
  | nil => rfl
  | cons r rest ih =>
    rw [List.flatMap_cons, List.filter_append, ih, List.filter_cons]
    split
    · rw [List.flatMap_cons, List.filter_append]
    · next hid =>
      have hnone : (r.explanations catalog).filter (·.sortKey = key) = [] := by
        refine List.filter_eq_nil_iff.mpr fun e he hkey => hid (decide_eq_true ?_)
        rw [← target_of_explanation he, of_decide_eq_true hkey]
      rw [hnone, List.nil_append]

/-- Relation by relation: one that keeps its id has the same to explain. -/
theorem explanations_alike (catalog : Catalog)
    {relations others : List (Relation (Option AuthoredParams))}
    (h : List.Forall₂ Relation.Alike relations others) (id : Option String) :
    (relations.filter (some ·.id = id)).flatMap (Relation.explanations catalog) =
      (others.filter (some ·.id = id)).flatMap (Relation.explanations catalog) := by
  induction h with
  | nil => rfl
  | cons hrs _ ih =>
    rw [List.filter_cons, List.filter_cons, hrs.id_eq]
    split
    · rw [List.flatMap_cons, List.flatMap_cons, hrs.explanations, ih]
    · exact ih

namespace AuthoredModel.Rearranged

variable {catalog : Catalog} {m other : AuthoredModel}
  {S : Relation (Option AuthoredParams) → Relation (Option AuthoredParams) → Prop}

theorem resolved_relations (hS : ∀ r s, S r s → r.Alike s) (h : m.Rearranged S other)
    (hdistinct : m.Distinct) :
    List.Forall₂ Relation.Alike (m.resolve catalog).relations
      (other.resolve catalog).relations := by
  have hresolved : Shuffle Relation.Alike (m.relations.map (Relation.resolve catalog))
      (other.relations.map (Relation.resolve catalog)) :=
    h.relations.map fun r s hrs => (hS r s hrs).resolve
  refine hresolved.sortOn (fun r s hrs => hrs.id_eq) ?_
  rw [List.map_map]
  exact hdistinct.relations

/-- Nothing but the references of its relations shows in the resolved model. -/
theorem resolve_frame (h : m.Rearranged S other) (hdistinct : m.Distinct) :
    other.resolve catalog =
      { m.resolve catalog with relations := (other.resolve catalog).relations } := by
  have hintervals : sortOn Interval.id other.intervals = sortOn Interval.id m.intervals :=
    (sortOn_eq_of_perm Interval.id h.intervals hdistinct.intervals).symm
  have hconstraints : sortOn Constraint.id (other.constraints.map Constraint.resolve) =
      sortOn Constraint.id (m.constraints.map Constraint.resolve) := by
    refine (sortOn_eq_of_perm Constraint.id (h.constraints.map _) ?_).symm
    rw [List.map_map]
    exact hdistinct.constraints
  have hframe := h.frame
  unfold AuthoredModel.resolve
  rw [hintervals, hconstraints, hframe]

theorem text_eq (hS : ∀ r s, S r s → r.Alike s) (h : m.Rearranged S other)
    (hdistinct : m.Distinct) :
    Iseql.text (other.resolve catalog) catalog = Iseql.text (m.resolve catalog) catalog :=
  Iseql.text_alike catalog (h.resolve_frame hdistinct) (h.resolved_relations hS hdistinct)

/-- Where no relation changes, nothing does. -/
theorem resolve_eq (h : m.Rearranged (· = ·) other) (hdistinct : m.Distinct) :
    other.resolve catalog = m.resolve catalog := by
  have hrelations : (other.resolve catalog).relations = (m.resolve catalog).relations := by
    refine (sortOn_eq_of_perm Relation.id (h.relations.perm.map _) ?_).symm
    rw [List.map_map]
    exact hdistinct.relations
  rw [h.resolve_frame hdistinct, hrelations]

theorem trail_eq (hS : ∀ r s, S r s → r.Alike s) (h : m.Rearranged S other)
    (hdistinct : m.Distinct) : other.trail catalog = m.trail catalog := by
  obtain ⟨middle, hperm, hrelated⟩ := h.relations
  refine (sortOn_eq_of_filter Explanation.sortKey fun key => ?_).symm
  have hids : (m.relations.map fun r => some r.id).Nodup := by
    have hsome := List.Nodup.map (Option.some_injective String) hdistinct.relations
    rwa [List.map_map] at hsome
  rw [filter_explanations catalog m.relations, filter_explanations catalog other.relations,
    filter_eq_of_perm (some ·.id) hperm hids, explanations_alike catalog (hrelated.imp hS)]

end AuthoredModel.Rearranged
end EventPattern
