import EventPattern.Proofs.Related
import EventPattern.Proofs.Review.Advice
import EventPattern.Proofs.Review.Paths

/-! The review of a model that stands elsewhere.

A model may come of a document of one shape or the other. The review says the same of it, at
the paths that its origin gives (`Issue.Relocated`), and in the same order, since the order of
the paths does not depend on the origin (`Issue.Relocated.sortKey_le`). A wrong value retracts
the advice on its relation, and no other, in both (`Issue.isWithin_relation`). -/
namespace EventPattern

open EventPattern.Relation (Part)
open EventPattern.Relation.Part (NamesOperator)

/-! ### Issues -/

namespace Issue

variable {o o' : Origin} {a b c d : Issue}

/-- The same issue, on the same part of a relation, in documents of two origins. -/
structure Relocated (o o' : Origin) (a b : Issue) : Prop where
  severity : b.severity = a.severity
  code : b.code = a.code
  message : b.message = a.message
  place : ∃ (part : Part) (i : Nat), a.path = (part.place o i).text ∧
    b.path = (part.place o' i).text

theorem relocated_remark (remark : Remark) (part : Part) (i : Nat) :
    Relocated o o' (remark.issue (part.place o i)) (remark.issue (part.place o' i)) :=
  ⟨rfl, rfl, rfl, part, i, rfl, rfl⟩

theorem Relocated.path_order (ho : NamesOperator o) (ho' : NamesOperator o')
    (hab : Relocated o o' a b) (hcd : Relocated o o' c d) :
    SameOrder a.path.toList c.path.toList b.path.toList d.path.toList := by
  obtain ⟨p, i, ha, hb⟩ := hab.place
  obtain ⟨q, j, hc, hd⟩ := hcd.place
  rw [ha, hb, hc, hd]
  exact Part.sameOrder_paths ho ho' i j p q

theorem Relocated.path_eq (ho : NamesOperator o) (ho' : NamesOperator o')
    (hab : Relocated o o' a b) (hcd : Relocated o o' c d) : a.path = c.path ↔ b.path = d.path := by
  rw [← String.toList_inj, ← String.toList_inj]
  exact (hab.path_order ho ho' hcd).eq_iff

/-- **Issues are in the same order in both documents.** -/
theorem Relocated.sortKey_le (ho : NamesOperator o) (ho' : NamesOperator o')
    (hab : Relocated o o' a b) (hcd : Relocated o o' c d) :
    a.sortKey ≤ c.sortKey ↔ b.sortKey ≤ d.sortKey := by
  have hpath : c.path < a.path ↔ d.path < b.path := (hab.path_order ho ho' hcd).gt
  have hlt : c.sortKey < a.sortKey ↔ d.sortKey < b.sortKey := by
    simp only [sortKey, List.cons_lt_cons_iff, hab.code, hab.message, hcd.code, hcd.message,
      hpath, hcd.path_eq ho ho' hab]
  exact not_congr hlt

theorem Relocated.eq_iff (ho : NamesOperator o) (ho' : NamesOperator o')
    (hab : Relocated o o' a b) (hcd : Relocated o o' c d) : a = c ↔ b = d := by
  have hext (x y : Issue) : x = y ↔
      x.severity = y.severity ∧ x.code = y.code ∧ x.path = y.path ∧ x.message = y.message := by
    cases x
    cases y
    simp
  rw [hext, hext, hab.severity, hab.code, hab.message, hcd.severity, hcd.code, hcd.message,
    hab.path_eq ho ho' hcd]

theorem relocated_sort (ho : NamesOperator o) (ho' : NamesOperator o') {issues others : List Issue}
    (h : List.Forall₂ (Relocated o o') issues others) :
    List.Forall₂ (Relocated o o') (sort issues) (sort others) :=
  forall₂_sortBy (fun _ _ hab _ _ hcd => decide_eq_decide.mpr (hab.sortKey_le ho ho' hcd)) h

theorem relocated_distinct (ho : NamesOperator o) (ho' : NamesOperator o')
    {issues others : List Issue} (h : List.Forall₂ (Relocated o o') issues others) :
    List.Forall₂ (Relocated o o') (distinct issues) (distinct others) :=
  forall₂_eraseDups (fun _ _ hab _ _ hcd => hab.eq_iff ho ho' hcd) h

/-- An issue is within the relation that it is about, and within no other. -/
theorem isWithin_relation (issue : Issue) {part : Part} {i : Nat}
    (h : issue.path = (part.place o i).text) (j : Nat) :
    issue.isWithin (Location.index o.relations j).text = decide (i = j) := by
  have hpath : Location.Beneath (Location.index o.relations i).text issue.path := by
    rw [h]
    exact part.beneath_place o i
  rw [Bool.eq_iff_iff, isWithin_iff, decide_eq_true_iff]
  constructor
  · intro hj
    exact Location.eq_of_beneath_indexText hpath hj
  · intro hij
    rw [← hij]
    exact hpath

theorem Relocated.isWithin (hab : Relocated o o' a b) (i : Nat) :
    a.isWithin (Location.index o.relations i).text =
      b.isWithin (Location.index o'.relations i).text := by
  obtain ⟨part, j, ha, hb⟩ := hab.place
  rw [isWithin_relation a ha, isWithin_relation b hb]

end Issue

/-! ### The review of a relation -/

/-- The model of a document of another version and origin. -/
def Model.relocate {P : Type} (m : Model P) (version : String) (origin : Origin) : Model P :=
  { m with schemaVersion := version, origin }

namespace Review

variable (m : AuthoredModel) (catalog : Catalog) (version : String) (origin : Origin)
  (r : Relation (Option AuthoredParams)) (i : Nat)

open Issue (Relocated relocated_remark)

theorem operatorIssues_relocated :
    List.Forall₂ (Relocated m.origin origin) (operatorIssues m catalog (m.relationAt i) r)
      (operatorIssues (m.relocate version origin) catalog
        ((m.relocate version origin).relationAt i) r) := by
  unfold operatorIssues
  split
  · exact .nil
  · exact .cons (relocated_remark _ .operator i) .nil

theorem referenceIssues_relocated :
    List.Forall₂ (Relocated m.origin origin) (referenceIssues m catalog (m.relationAt i) r)
      (referenceIssues (m.relocate version origin) catalog
        ((m.relocate version origin).relationAt i) r) := by
  refine forall₂_filterMap (fun entry => ?_) _
  obtain ⟨id, k⟩ := entry
  exact rel_map (fun remark => relocated_remark remark (.reference k) i)
    (referenceRemark? m catalog r id)

theorem paramIssues_relocated :
    List.Forall₂ (Relocated m.origin origin) (paramIssues catalog (m.relationAt i) r)
      (paramIssues catalog ((m.relocate version origin).relationAt i) r) := by
  unfold paramIssues
  split
  · exact .nil
  · next params _ =>
    refine forall₂_filterMap (fun key => ?_) _
    unfold valueIssue?
    cases params.effective key with
    | none => exact .none
    | some raw =>
      exact rel_map (fun remark =>
        relocated_remark remark (.param (params.effectiveName key)) i) _

/-- What is wrong with a relation whose ends are there. -/
theorem faults_relocated (hleft : r.left ∈ m.intervals.map (·.id))
    (hright : r.right ∈ m.intervals.map (·.id)) :
    List.Forall₂ (Relocated m.origin origin) (faults m catalog (r, i))
      (faults (m.relocate version origin) catalog (r, i)) := by
  have hends (model : AuthoredModel) (hsame : model.intervals = m.intervals) :
      endIssues model (model.relationAt i) r = [] := by
    rw [endIssues_eq_nil, hsame]
    exact ⟨hleft, hright⟩
  simp only [faults, hends m rfl, hends (m.relocate version origin) rfl, List.append_nil]
  exact List.rel_append (List.rel_append (operatorIssues_relocated m catalog version origin r i)
    (referenceIssues_relocated m catalog version origin r i))
    (paramIssues_relocated m catalog version origin r i)

theorem adviceIssues_relocated :
    List.Forall₂ (Relocated m.origin origin) (adviceIssues (m.relationAt i) r)
      (adviceIssues ((m.relocate version origin).relationAt i) r) := by
  unfold adviceIssues
  split
  · exact .cons (relocated_remark (.missingParams r.id) .params i) .nil
  · split
    · exact .nil
    · exact .cons (relocated_remark _ .params i) .nil

theorem thresholdIssues_relocated :
    List.Forall₂ (Relocated m.origin origin) (thresholdIssues catalog (m.relationAt i) r)
      (thresholdIssues catalog ((m.relocate version origin).relationAt i) r) := by
  unfold thresholdIssues
  split
  · exact .nil
  · split
    · exact .cons (relocated_remark _ .whole i) .nil
    · exact .nil

/-! ### The review of a model -/

/-- The reviews say the same, at the paths of two origins. -/
structure Relocated (o o' : Origin) (review other : Review) : Prop where
  errors : List.Forall₂ (Issue.Relocated o o') review.errors other.errors
  warnings : List.Forall₂ (Issue.Relocated o o') review.warnings other.warnings

/-- One relation more. -/
theorem addRelation_relocated {review other : Review}
    (h : Relocated m.origin origin review other) (hleft : r.left ∈ m.intervals.map (·.id))
    (hright : r.right ∈ m.intervals.map (·.id)) :
    Relocated m.origin origin (addRelation m catalog review (r, i))
      (addRelation (m.relocate version origin) catalog other (r, i)) := by
  constructor
  · rw [addRelation_errors, addRelation_errors]
    exact List.rel_append h.errors (faults_relocated m catalog version origin r i hleft hright)
  · have hadvice := List.rel_append h.warnings (adviceIssues_relocated m version origin r i)
    have hempty := forall₂_isEmpty (paramIssues_relocated m catalog version origin r i)
    simp only [addRelation, hempty]
    refine List.rel_append ?_ (thresholdIssues_relocated m catalog version origin r i)
    split
    · exact hadvice
    · refine List.rel_filter (fun a b hab => ?_) hadvice
      exact iff_of_eq (congrArg (fun within => (!within) = true) (hab.isWithin i))

theorem foldl_relocated {entries : List (Relation (Option AuthoredParams) × Nat)}
    (hends : ∀ entry ∈ entries, entry.1.left ∈ m.intervals.map (·.id) ∧
      entry.1.right ∈ m.intervals.map (·.id)) {review other : Review}
    (h : Relocated m.origin origin review other) :
    Relocated m.origin origin (entries.foldl (addRelation m catalog) review)
      (entries.foldl (addRelation (m.relocate version origin) catalog) other) := by
  induction entries generalizing review other with
  | nil => exact h
  | cons entry rest ih =>
    obtain ⟨⟨hleft, hright⟩, hrest⟩ := List.forall_mem_cons.mp hends
    exact ih hrest (addRelation_relocated m catalog version origin entry.1 entry.2 h hleft hright)

variable {m version origin}

/-- **The review of a model says the same wherever the model stands**, as long as it has no
further constraints and the ends of its relations are there. -/
theorem ofModel_relocated (ho : NamesOperator m.origin) (ho' : NamesOperator origin)
    (hconstraints : m.constraints = [])
    (hends : ∀ r ∈ m.relations, r.left ∈ m.intervals.map (·.id) ∧
      r.right ∈ m.intervals.map (·.id)) :
    Relocated m.origin origin (ofModel m catalog)
      (ofModel (m.relocate version origin) catalog) := by
  have hnone (model : AuthoredModel) (h : model.constraints = []) :
      redundancyIssues model = [] := by
    rw [redundancyIssues, h]
    rfl
  have hentries : ∀ entry ∈ m.relations.zipIdx, entry.1.left ∈ m.intervals.map (·.id) ∧
      entry.1.right ∈ m.intervals.map (·.id) := fun entry hentry =>
    hends entry.1 (List.mem_of_getElem? (List.mem_zipIdx_iff_getElem?.mp hentry))
  have hstart : Relocated m.origin origin { warnings := [] } { warnings := [] } := ⟨.nil, .nil⟩
  have hfold := foldl_relocated m catalog version origin hentries hstart
  unfold ofModel
  rw [hnone m hconstraints, hnone (m.relocate version origin) hconstraints]
  exact ⟨Issue.relocated_sort ho ho' hfold.errors, Issue.relocated_sort ho ho' hfold.warnings⟩

end Review
end EventPattern
