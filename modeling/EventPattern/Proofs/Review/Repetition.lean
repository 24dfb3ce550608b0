import EventPattern.Document.Model
import EventPattern.Proofs.Issue
import EventPattern.Proofs.Review.Advice
import EventPattern.Proofs.Review.Relocation
import Mathlib.Data.List.Flatten
import Mathlib.Data.List.Sigma

/-! A review says nothing twice.

It goes through the parts of each relation (`Part.faulted`, `Part.advised`) and says one thing of a
part at most. As the paths of parts are all different, so are its errors (`nodup_errors`). Its
warnings are given and taken back relation by relation; but a wrong value takes back no more than
the advice on its own relation, which leaves each relation the advice that it is worth
(`warnings_eq`), and the warnings are all different too (`nodup_warnings`). -/
namespace EventPattern

open EventPattern.Relation (Part)
open EventPattern.Relation.Part (NamesOperator)
open Location (Beneath)

/-- Picking from a list what lies at the places of its items goes through these places in
order. -/
theorem map_filterMap_sublist {α β γ : Type} {pick : α → Option β} {place : β → γ} {at' : α → γ}
    (h : ∀ a b, pick a = some b → place b = at' a) (items : List α) :
    ((items.filterMap pick).map place).Sublist (items.map at') := by
  induction items with
  | nil => exact .slnil
  | cons item rest ih =>
    rw [List.filterMap_cons, List.map_cons]
    cases hpick : pick item with
    | none => exact ih.cons _
    | some b =>
      show (place b :: _).Sublist _
      rw [h item b hpick]
      exact ih.cons_cons _

theorem ParamKey.effectiveName_inj {params : AuthoredParams} {key other : ParamKey}
    (h : params.effectiveName key = params.effectiveName other) : key = other := by
  have hname (key : ParamKey) :
      (ParamKey.ofName? (params.effectiveName key)).map (·.1) = some key := by
    unfold AuthoredParams.effectiveName
    split
    · rw [ParamKey.ofName?_latin]
      rfl
    · rw [ParamKey.ofName?_greek]
      rfl
  have hkeys := hname key
  rw [h, hname other] at hkeys
  exact (Option.some.inj hkeys).symm

/-! ### The parts of a relation -/

namespace Relation.Part

variable (r : Relation (Option AuthoredParams))

/-- The parameters that a relation gives, under the names that count. -/
def given : List Part :=
  match r.givenParams with
  | none => []
  | some authored => ParamKey.all.map fun key => param (authored.effectiveName key)

/-- The parts of a relation that something may be wrong with, in order. -/
def faulted : List Part :=
  operator :: (r.constraintIds.zipIdx.map (fun entry => reference entry.2) ++ given r)

/-- The parts of a relation that advice may be on, in order. -/
def advised : List Part := [params, whole]

theorem nodup_given : (given r).Nodup := by
  unfold given
  split
  · exact .nil
  · refine List.Nodup.map (fun key other h => ?_) (by decide)
    exact ParamKey.effectiveName_inj (Part.param.inj h)

theorem mem_given {part : Part} (h : part ∈ given r) : ∃ name, part = param name := by
  unfold given at h
  split at h
  · cases h
  · obtain ⟨key, -, rfl⟩ := List.mem_map.mp h
    exact ⟨_, rfl⟩

theorem nodup_faulted : (faulted r).Nodup := by
  have hreferences : (r.constraintIds.zipIdx.map fun entry => reference entry.2).Nodup := by
    have hpositions := (List.nodup_zipIdx_map_snd r.constraintIds).map fun _ _ =>
      Part.reference.inj
    rw [List.map_map] at hpositions
    exact hpositions
  have hapart : List.Disjoint (r.constraintIds.zipIdx.map fun entry => reference entry.2)
      (given r) := by
    intro part hreference hgiven
    obtain ⟨k, -, rfl⟩ := List.mem_map.mp hreference
    obtain ⟨name, hname⟩ := mem_given r hgiven
    cases hname
  refine List.nodup_cons.mpr ⟨fun h => ?_, hreferences.append (nodup_given r) hapart⟩
  rcases List.mem_append.mp h with hreference | hgiven
  · obtain ⟨k, -, hk⟩ := List.mem_map.mp hreference
    cases hk
  · obtain ⟨name, hname⟩ := mem_given r hgiven
    cases hname

/-- Where a part of the relation at a position is written. -/
def path (origin : Origin) (entry : Nat × Part) : String := (entry.2.place origin entry.1).text

theorem path_injective {o : Origin} (ho : NamesOperator o) : Function.Injective (path o) := by
  intro entry other h
  obtain ⟨hi, hpart⟩ := eq_of_text_place ho h
  exact Prod.ext hi hpart

end Relation.Part

/-! ### Where a document keeps its parts -/

/-- No constraint is written within a relation. -/
def Origin.KeepsApart (o : Origin) : Prop :=
  ∀ i k, ¬ Beneath (Location.index o.relations i).text (Location.index o.constraints k).text

theorem Document.apart (doc : Document) {i k : Nat} {path : String}
    (hrelation : Beneath (Location.index doc.origin.relations i).text path) :
    ¬ Beneath (Location.index doc.origin.constraints k).text path := by
  intro hconstraint
  have hrelations := (Location.beneath_indexText _ i).trans hrelation
  have hconstraints := (Location.beneath_indexText _ k).trans hconstraint
  cases doc with
  | legacy d =>
    exact absurd (Location.eq_of_beneath_keyText (by decide) (by decide) hrelations hconstraints)
      (by decide)
  | canonical d =>
    have hconstraints := (Location.beneath_keyText (Location.key .root "constraints").text
      "constraints").trans hconstraints
    exact absurd (Location.eq_of_beneath_keyText (by decide) (by decide) hrelations hconstraints)
      (by decide)

theorem Document.keepsApart (doc : Document) : doc.origin.KeepsApart :=
  fun _ _ h => doc.apart h (.refl _)

theorem Document.namesOperator (doc : Document) : NamesOperator doc.origin := by
  cases doc with
  | legacy d => exact ⟨"peratorKey".toList, (by decide : "operatorKey".toList = _)⟩
  | canonical d => exact ⟨"peratorId".toList, (by decide : "operatorId".toList = _)⟩

namespace Review

open Relation.Part (path faulted advised path_injective)

variable (model : AuthoredModel) (catalog : Catalog)

/-! ### Errors -/

/-- The faults of a relation are on parts of it, at most one on each. -/
theorem faults_sublist {entry : Relation (Option AuthoredParams) × Nat}
    (hleft : entry.1.left ∈ model.intervals.map (·.id))
    (hright : entry.1.right ∈ model.intervals.map (·.id)) :
    ((faults model catalog entry).map Issue.path).Sublist
      ((faulted entry.1).map fun part => path model.origin (entry.2, part)) := by
  obtain ⟨r, i⟩ := entry
  have hends : endIssues model (model.relationAt i) r = [] :=
    (endIssues_eq_nil _ _ _).mpr ⟨hleft, hright⟩
  have hoperator : ((operatorIssues model catalog (model.relationAt i) r).map Issue.path).Sublist
      [path model.origin (i, .operator)] := by
    unfold operatorIssues
    split
    · exact List.nil_sublist _
    · exact .refl _
  have hreferences : ((referenceIssues model catalog (model.relationAt i) r).map
      Issue.path).Sublist (r.constraintIds.zipIdx.map fun entry =>
        path model.origin (i, .reference entry.2)) := by
    refine map_filterMap_sublist (fun entry issue hissue => ?_) _
    obtain ⟨remark, -, rfl⟩ := Option.map_eq_some_iff.mp hissue
    rfl
  have hvalues : ((paramIssues catalog (model.relationAt i) r).map Issue.path).Sublist
      ((Part.given r).map fun part => path model.origin (i, part)) := by
    unfold paramIssues Part.given
    cases r.givenParams with
    | none => exact .refl _
    | some params =>
      rw [List.map_map]
      refine map_filterMap_sublist (fun key issue hissue => ?_) _
      obtain ⟨raw, -, hvalue⟩ := Option.bind_eq_some_iff.mp hissue
      obtain ⟨remark, -, rfl⟩ := Option.map_eq_some_iff.mp hvalue
      rfl
  rw [faults, hends, List.append_nil, List.map_append, List.map_append, faulted, List.map_cons,
    List.map_append, List.map_map]
  exact (hoperator.append hreferences).append hvalues

/-- The paths of parts are different, in one relation and in several. -/
theorem nodup_paths (ho : NamesOperator model.origin)
    {entries : List (Relation (Option AuthoredParams) × Nat)}
    (hpositions : (entries.map (·.2)).Nodup)
    (parts : Relation (Option AuthoredParams) → List Part) (hparts : ∀ r, (parts r).Nodup) :
    (entries.flatMap fun entry =>
      (parts entry.1).map fun part => path model.origin (entry.2, part)).Nodup := by
  refine List.nodup_flatMap.mpr ⟨fun entry _ => (hparts entry.1).map fun p q h => ?_,
    (List.pairwise_map.mp hpositions).imp fun hne place hplace hother => hne ?_⟩
  · exact (Prod.mk.inj (path_injective ho h)).2
  · obtain ⟨p, -, rfl⟩ := List.mem_map.mp hplace
    obtain ⟨q, -, hq⟩ := List.mem_map.mp hother
    exact (Prod.mk.inj (path_injective ho hq)).1.symm

variable {model}

/-- **No error of a review is given twice.** -/
theorem nodup_errors (ho : NamesOperator model.origin)
    (hends : ∀ r ∈ model.relations, r.left ∈ model.intervals.map (·.id) ∧
      r.right ∈ model.intervals.map (·.id)) :
    (ofModel model catalog).errors.Nodup := by
  have hentry : ∀ entry ∈ model.relations.zipIdx,
      ((faults model catalog entry).map Issue.path).Sublist
        ((faulted entry.1).map fun part => path model.origin (entry.2, part)) := by
    intro entry hentry
    obtain ⟨hleft, hright⟩ := hends entry.1 (List.fst_mem_of_mem_zipIdx hentry)
    exact faults_sublist model catalog hleft hright
  have hpaths : ((model.relations.zipIdx.flatMap (faults model catalog)).map Issue.path).Nodup := by
    rw [List.map_flatMap]
    exact (List.Sublist.flatMap_right _ hentry).nodup
      (nodup_paths model ho (List.nodup_zipIdx_map_snd _) faulted Part.nodup_faulted)
  show (Issue.sort _).Nodup
  rw [(Issue.sort_perm _).nodup_iff, foldl_errors, List.nil_append]
  exact hpaths.of_map

/-! ### Warnings -/

variable (model)

/-- The advice that a relation is left with. -/
def keptAdvice (entry : Relation (Option AuthoredParams) × Nat) : List Issue :=
  (if (paramIssues catalog (model.relationAt entry.2) entry.1).isEmpty then
      adviceIssues (model.relationAt entry.2) entry.1
    else []) ++ thresholdIssues catalog (model.relationAt entry.2) entry.1

theorem adviceIssues_sublist (entry : Relation (Option AuthoredParams) × Nat) :
    ((adviceIssues (model.relationAt entry.2) entry.1).map Issue.path).Sublist
      [path model.origin (entry.2, .params)] := by
  unfold adviceIssues
  split
  · exact .refl _
  · split
    · exact List.nil_sublist _
    · exact .refl _

/-- It is on parts of the relation, at most one piece on each. -/
theorem keptAdvice_sublist (entry : Relation (Option AuthoredParams) × Nat) :
    ((keptAdvice model catalog entry).map Issue.path).Sublist
      (Part.advised.map fun part => path model.origin (entry.2, part)) := by
  have hthreshold : ((thresholdIssues catalog (model.relationAt entry.2) entry.1).map
      Issue.path).Sublist [path model.origin (entry.2, .whole)] := by
    unfold thresholdIssues
    split
    · exact List.nil_sublist _
    · split
      · exact .refl _
      · exact List.nil_sublist _
  have hadvice : ((if (paramIssues catalog (model.relationAt entry.2) entry.1).isEmpty then
      adviceIssues (model.relationAt entry.2) entry.1 else []).map Issue.path).Sublist
      [path model.origin (entry.2, .params)] := by
    split
    · exact adviceIssues_sublist model entry
    · exact List.nil_sublist _
  rw [keptAdvice, List.map_append]
  exact hadvice.append hthreshold

variable {model}

/-- Advice on a relation lies within it, and within no other. -/
theorem isWithin_keptAdvice {entry : Relation (Option AuthoredParams) × Nat} {issue : Issue}
    (h : issue ∈ keptAdvice model catalog entry) (i : Nat) :
    issue.isWithin (model.relationAt i).text = decide (entry.2 = i) := by
  have hpath := (keptAdvice_sublist model catalog entry).subset (List.mem_map_of_mem h)
  obtain ⟨part, -, hpart⟩ := List.mem_map.mp hpath
  exact Issue.isWithin_relation issue hpart.symm i

/-- A relation takes back no advice but its own. -/
theorem addRelation_warnings_eq {review : Review}
    {entry : Relation (Option AuthoredParams) × Nat}
    (h : ∀ issue ∈ review.warnings, issue.isWithin (model.relationAt entry.2).text = false) :
    (addRelation model catalog review entry).warnings =
      review.warnings ++ keptAdvice model catalog entry := by
  have hown : ∀ issue ∈ adviceIssues (model.relationAt entry.2) entry.1,
      issue.isWithin (model.relationAt entry.2).text = true := by
    intro issue hissue
    have hpath := (adviceIssues_sublist model entry).subset (List.mem_map_of_mem hissue)
    exact (Issue.isWithin_relation issue (List.mem_singleton.mp hpath) entry.2).trans
      (decide_eq_true rfl)
  have hothers : review.warnings.filter
      (!·.isWithin (model.relationAt entry.2).text) = review.warnings :=
    List.filter_eq_self.mpr fun issue hissue => by rw [h issue hissue]; rfl
  have hnone : (adviceIssues (model.relationAt entry.2) entry.1).filter
      (!·.isWithin (model.relationAt entry.2).text) = [] :=
    List.filter_eq_nil_iff.mpr fun issue hissue => by rw [hown issue hissue]; simp
  simp only [addRelation, keptAdvice]
  split
  · rw [List.append_assoc]
  · rw [List.filter_append, hothers, hnone, List.append_nil, List.nil_append]

theorem foldl_warnings_eq {entries : List (Relation (Option AuthoredParams) × Nat)}
    (hpositions : (entries.map (·.2)).Nodup) {review : Review}
    (h : ∀ entry ∈ entries, ∀ issue ∈ review.warnings,
      issue.isWithin (model.relationAt entry.2).text = false) :
    (entries.foldl (addRelation model catalog) review).warnings =
      review.warnings ++ entries.flatMap (keptAdvice model catalog) := by
  induction entries generalizing review with
  | nil => simp
  | cons entry rest ih =>
    obtain ⟨hposition, hrest⟩ := List.nodup_cons.mp hpositions
    obtain ⟨hentry, hlater⟩ := List.forall_mem_cons.mp h
    have hadded := addRelation_warnings_eq catalog hentry
    rw [List.foldl_cons, ih hrest fun other hother issue hissue => ?_, hadded, List.flatMap_cons,
      List.append_assoc]
    rw [hadded] at hissue
    rcases List.mem_append.mp hissue with hissue | hissue
    · exact hlater other hother issue hissue
    · rw [isWithin_keptAdvice catalog hissue]
      exact decide_eq_false fun hsame => hposition (List.mem_map.mpr ⟨other, hother, hsame.symm⟩)

/-! ### Constraints -/

theorem redundancyIssues_sublist (model : AuthoredModel) :
    ((redundancyIssues model).map Issue.path).Sublist
      (model.constraints.zipIdx.map fun entry => (model.constraintAt entry.2).text) := by
  refine map_filterMap_sublist (fun entry issue hissue => ?_) _
  obtain ⟨remark, -, rfl⟩ := Option.map_eq_some_iff.mp hissue
  rfl

theorem nodup_redundancyIssues (model : AuthoredModel) : (redundancyIssues model).Nodup := by
  have hpaths := (List.nodup_zipIdx_map_snd model.constraints).map fun i j
    (h : (model.constraintAt i).text = (model.constraintAt j).text) =>
      Location.indexText_right_inj h
  rw [List.map_map] at hpaths
  exact ((redundancyIssues_sublist model).nodup hpaths).of_map

theorem isWithin_redundancyIssues (hapart : model.origin.KeepsApart) {issue : Issue}
    (h : issue ∈ redundancyIssues model) (i : Nat) :
    issue.isWithin (model.relationAt i).text = false := by
  have hpath := (redundancyIssues_sublist model).subset (List.mem_map_of_mem h)
  obtain ⟨entry, -, hplace⟩ := List.mem_map.mp hpath
  refine Bool.eq_false_iff.mpr fun hwithin => hapart i entry.2 ?_
  have hbeneath := (Issue.isWithin_iff issue _).mp hwithin
  rwa [← hplace] at hbeneath

/-! ### The review -/

/-- **What is advised in the end.** Only a wrong value of its own takes advice back from a
relation. -/
theorem warnings_eq (hapart : model.origin.KeepsApart) :
    (ofModel model catalog).warnings = Issue.sort (redundancyIssues model ++
      model.relations.zipIdx.flatMap (keptAdvice model catalog)) := by
  show Issue.sort _ = _
  rw [foldl_warnings_eq catalog (List.nodup_zipIdx_map_snd _) fun entry _ issue hissue =>
    isWithin_redundancyIssues hapart hissue entry.2]

/-- **No warning of a review is given twice.** -/
theorem nodup_warnings (hapart : model.origin.KeepsApart) (ho : NamesOperator model.origin) :
    (ofModel model catalog).warnings.Nodup := by
  have hadvice : (model.relations.zipIdx.flatMap (keptAdvice model catalog)).Nodup := by
    have hpaths := nodup_paths model ho (List.nodup_zipIdx_map_snd model.relations)
      (fun _ => advised) fun _ => by decide
    refine List.Nodup.of_map Issue.path ?_
    rw [List.map_flatMap]
    exact (List.Sublist.flatMap_right _ fun entry _ =>
      keptAdvice_sublist model catalog entry).nodup hpaths
  rw [warnings_eq catalog hapart, (Issue.sort_perm _).nodup_iff]
  refine (nodup_redundancyIssues model).append hadvice fun issue hredundant hissue => ?_
  obtain ⟨entry, -, hkept⟩ := List.mem_flatMap.mp hissue
  have hin := isWithin_keptAdvice catalog hkept entry.2
  rw [isWithin_redundancyIssues hapart hredundant, decide_eq_true rfl] at hin
  cases hin

end Review
end EventPattern
