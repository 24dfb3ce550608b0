import EventPattern.Proofs.Issue
import EventPattern.Proofs.Param.Reading
import EventPattern.Review

/-! When a review has nothing to fault.

The errors of a review are those of the relations, one after the other, and nothing retracts
them; each of them says that something a relation refers to is not there or not allowed. So a
review is without errors exactly when every relation is `Sound` (`errors_eq_nil_iff`). -/
namespace EventPattern

/-! ### Parameters -/

theorem Relation.authored_eq (r : Relation (Option AuthoredParams)) (key : ParamKey) :
    r.authored key = r.givenParams.bind fun params => params.effective key := by
  rw [authored, givenParams]
  cases r.params with
  | none => rfl
  | some params =>
    cases hempty : params.isEmpty with
    | true =>
      rw [Option.filter_some_neg (by simp [hempty])]
      exact params.isEmpty_iff.mp hempty key
    | false => rw [Option.filter_some_pos (by simp [hempty])]

namespace Review

variable (model : AuthoredModel) (catalog : Catalog)

/-! ### Sound relations -/

/-- A reference to a constraint that is there, and that the operator supports. -/
def IsSupported (op : Option Operator) (id : String) : Prop :=
  ∃ c, model.constraint? id = some c ∧ ∀ found ∈ op, found.compatibility.supports c.kind

/-- A value that can be read, and that the operator admits. -/
def IsAllowed (op : Option Operator) (key : ParamKey) (raw : Json) : Prop :=
  ∃ value, key.kind.read? raw = some value ∧
    ∀ found ∈ op, found.domains.admits key.kind value = true

/-- Everything that the relation refers to is there, and allowed by its operator. -/
structure Sound (r : Relation (Option AuthoredParams)) : Prop where
  operator : (catalog.lookup? r.operator).isSome
  left : r.left ∈ model.intervals.map (·.id)
  right : r.right ∈ model.intervals.map (·.id)
  references : ∀ id ∈ r.constraintIds, IsSupported model (catalog.lookup? r.operator) id
  values : ∀ key raw, r.authored key = some raw → IsAllowed (catalog.lookup? r.operator) key raw

theorem operatorIssues_eq_nil (place : Location) (r : Relation (Option AuthoredParams)) :
    operatorIssues model catalog place r = [] ↔ (catalog.lookup? r.operator).isSome := by
  unfold operatorIssues
  split
  · next h => simp [h]
  · next h => simp [h]

theorem endIssues_eq_nil (place : Location) (r : Relation (Option AuthoredParams)) :
    endIssues model place r = [] ↔
      r.left ∈ model.intervals.map (·.id) ∧ r.right ∈ model.intervals.map (·.id) := by
  unfold endIssues
  rw [List.filterMap_eq_nil_iff]
  simp

theorem referenceRemark?_eq_none (r : Relation (Option AuthoredParams)) (id : String) :
    referenceRemark? model catalog r id = none ↔
      IsSupported model (catalog.lookup? r.operator) id := by
  unfold referenceRemark? IsSupported
  cases model.constraint? id with
  | none => simp
  | some c => simp [Option.any_eq_true]

theorem referenceIssues_eq_nil (place : Location) (r : Relation (Option AuthoredParams)) :
    referenceIssues model catalog place r = [] ↔
      ∀ id ∈ r.constraintIds, IsSupported model (catalog.lookup? r.operator) id := by
  unfold referenceIssues
  rw [List.filterMap_eq_nil_iff]
  constructor
  · intro h id hid
    obtain ⟨position, hposition⟩ := List.getElem?_of_mem hid
    have hnone := h (id, position) (List.mem_zipIdx_iff_getElem?.mpr hposition)
    exact (referenceRemark?_eq_none model catalog r id).mp (Option.map_eq_none_iff.mp hnone)
  · intro h entry hmem
    obtain ⟨id, position⟩ := entry
    have hid : id ∈ r.constraintIds := List.mem_of_getElem? (List.mem_zipIdx_iff_getElem?.mp hmem)
    exact Option.map_eq_none_iff.mpr ((referenceRemark?_eq_none model catalog r id).mpr (h id hid))

theorem valueRemark?_eq_none (op : Option Operator) (reference : String) (key : ParamKey)
    (raw : Json) : valueRemark? op reference key raw = none ↔ IsAllowed op key raw := by
  unfold valueRemark? IsAllowed
  cases key.kind.read? raw with
  | none => simp
  | some value => simp [Option.any_eq_true]

theorem valueIssues_eq_nil (op : Option Operator) (reference : String) (place : Location)
    (params : AuthoredParams) :
    valueIssues op reference place params = [] ↔
      ∀ key raw, params.effective key = some raw → IsAllowed op key raw := by
  unfold valueIssues
  rw [List.filterMap_eq_nil_iff]
  have hkey (key : ParamKey) : valueIssue? op reference place params key = none ↔
      ∀ raw, params.effective key = some raw → IsAllowed op key raw := by
    unfold valueIssue?
    cases params.effective key with
    | none => simp
    | some raw =>
      rw [Option.bind_some, Option.map_eq_none_iff, valueRemark?_eq_none]
      simp
  exact ⟨fun h key => (hkey key).mp (h key key.mem_all), fun h key _ => (hkey key).mpr (h key)⟩

theorem paramIssues_eq_nil (place : Location) (r : Relation (Option AuthoredParams)) :
    paramIssues catalog place r = [] ↔
      ∀ key raw, r.authored key = some raw → IsAllowed (catalog.lookup? r.operator) key raw := by
  unfold paramIssues
  simp only [Relation.authored_eq]
  cases r.givenParams with
  | none => simp
  | some params => exact valueIssues_eq_nil ..

/-! ### The errors of a review -/

/-- What is wrong with the relation at a position. -/
def faults (entry : Relation (Option AuthoredParams) × Nat) : List Issue :=
  let place := model.relationAt entry.2
  operatorIssues model catalog place entry.1 ++ endIssues model place entry.1 ++
    referenceIssues model catalog place entry.1 ++ paramIssues catalog place entry.1

theorem faults_eq_nil (entry : Relation (Option AuthoredParams) × Nat) :
    faults model catalog entry = [] ↔ Sound model catalog entry.1 := by
  unfold faults
  simp only [List.append_eq_nil_iff, operatorIssues_eq_nil, endIssues_eq_nil,
    referenceIssues_eq_nil, paramIssues_eq_nil]
  constructor
  · intro h
    obtain ⟨⟨⟨hoperator, hleft, hright⟩, hreferences⟩, hvalues⟩ := h
    exact ⟨hoperator, hleft, hright, hreferences, hvalues⟩
  · intro h
    exact ⟨⟨⟨h.operator, h.left, h.right⟩, h.references⟩, h.values⟩

theorem addRelation_errors (review : Review) (entry : Relation (Option AuthoredParams) × Nat) :
    (addRelation model catalog review entry).errors =
      review.errors ++ faults model catalog entry := by
  simp only [addRelation, faults, List.append_assoc]

theorem foldl_errors (entries : List (Relation (Option AuthoredParams) × Nat)) (review : Review) :
    (entries.foldl (addRelation model catalog) review).errors =
      review.errors ++ entries.flatMap (faults model catalog) := by
  induction entries generalizing review with
  | nil => simp
  | cons entry rest ih =>
    rw [List.foldl_cons, ih, addRelation_errors, List.flatMap_cons, List.append_assoc]

/-- **A review has errors exactly when a relation is not sound.** -/
theorem errors_eq_nil_iff :
    (ofModel model catalog).errors = [] ↔ ∀ r ∈ model.relations, Sound model catalog r := by
  unfold ofModel
  rw [Issue.sort_eq_nil, foldl_errors, List.nil_append, List.flatMap_eq_nil_iff]
  constructor
  · intro h r hr
    obtain ⟨position, hposition⟩ := List.getElem?_of_mem hr
    exact (faults_eq_nil model catalog (r, position)).mp
      (h _ (List.mem_zipIdx_iff_getElem?.mpr hposition))
  · intro h entry hmem
    obtain ⟨r, position⟩ := entry
    have hr : r ∈ model.relations := List.mem_of_getElem? (List.mem_zipIdx_iff_getElem?.mp hmem)
    exact (faults_eq_nil model catalog (r, position)).mpr (h r hr)

/-! ### Severities -/

theorem severity_of_referenceRemark? {r : Relation (Option AuthoredParams)} {id : String}
    {remark : Remark} (h : referenceRemark? model catalog r id = some remark) :
    remark.severity = .error := by
  unfold referenceRemark? at h
  split at h
  · cases h
    rfl
  · split at h
    · cases h
      rfl
    · cases h

theorem severity_of_valueRemark? {op : Option Operator} {reference : String} {key : ParamKey}
    {raw : Json} {remark : Remark} (h : valueRemark? op reference key raw = some remark) :
    remark.severity = .error := by
  unfold valueRemark? at h
  split at h
  · cases h
    rfl
  · split at h
    · cases h
      rfl
    · cases h

/-- Everything that is wrong with a relation is an error. -/
theorem isError_of_mem_faults {entry : Relation (Option AuthoredParams) × Nat} {issue : Issue}
    (h : issue ∈ faults model catalog entry) : issue.severity = .error := by
  unfold faults at h
  rcases List.mem_append.mp h with h | h
  · rcases List.mem_append.mp h with h | h
    · rcases List.mem_append.mp h with h | h
      · unfold operatorIssues at h
        split at h
        · cases h
        · rw [List.mem_singleton.mp h]
          rfl
      · obtain ⟨⟨key, id⟩, -, hissue⟩ := List.mem_filterMap.mp h
        dsimp only at hissue
        split at hissue
        · cases hissue
        · cases hissue
          rfl
    · obtain ⟨⟨id, k⟩, -, hissue⟩ := List.mem_filterMap.mp h
      obtain ⟨remark, hremark, rfl⟩ := Option.map_eq_some_iff.mp hissue
      exact severity_of_referenceRemark? model catalog hremark
  · unfold paramIssues at h
    split at h
    · cases h
    · obtain ⟨key, -, hissue⟩ := List.mem_filterMap.mp h
      obtain ⟨raw, -, hvalue⟩ := Option.bind_eq_some_iff.mp hissue
      obtain ⟨remark, hremark, rfl⟩ := Option.map_eq_some_iff.mp hvalue
      exact severity_of_valueRemark? hremark

theorem mem_errors {issue : Issue} (h : issue ∈ (ofModel model catalog).errors) :
    ∃ entry ∈ model.relations.zipIdx, issue ∈ faults model catalog entry := by
  have h := Issue.mem_sort.mp h
  rw [foldl_errors, List.nil_append] at h
  exact List.mem_flatMap.mp h

theorem errors_severity : ∀ issue ∈ (ofModel model catalog).errors, issue.severity = .error := by
  intro issue hissue
  obtain ⟨entry, -, hfault⟩ := mem_errors model catalog hissue
  exact isError_of_mem_faults model catalog hfault

end Review
end EventPattern
