import EventPattern.Proofs.Document.Respelling
import EventPattern.Proofs.Review.Repetition

/-! The review of a model in Latin spelling.

Whatever reads the parameters of a relation, reads what counts for each key, and this is the same
in either spelling. What depends on the spelling itself is the path of a wrong value, which ends in
the name that carries it (`errors_inLatin`), and the advice to use Latin names
(`warnings_inLatin`). -/
namespace EventPattern

open EventPattern.Relation (Part)

/-! ### Relations -/

theorem Relation.givenParams_inLatin (r : Relation (Option AuthoredParams)) :
    r.inLatin.givenParams = r.givenParams.map AuthoredParams.inLatin := by
  unfold givenParams inLatin
  cases r.params with
  | none => rfl
  | some params => cases hempty : params.isEmpty <;> simp [Option.filter, hempty]

/-! ### Issues -/

namespace Issue

/-- The same issue, but for the name of a parameter that its path may end in. -/
structure Respelled (origin : Origin) (a b : Issue) : Prop where
  severity : b.severity = a.severity
  code : b.code = a.code
  message : b.message = a.message
  path : b.path = a.path ∨ ∃ (i : Nat) (key : ParamKey),
    a.path = ((Part.param key.greek).place origin i).text ∧
      b.path = ((Part.param key.latin).place origin i).text

variable {origin : Origin}

theorem Respelled.refl (a : Issue) : Respelled origin a a := ⟨rfl, rfl, rfl, .inl rfl⟩

theorem forall₂_respelled_refl (issues : List Issue) :
    List.Forall₂ (Respelled origin) issues issues :=
  List.forall₂_same.mpr fun issue _ => .refl issue

/-- The issue is the advice to use Latin names. -/
def namesGreekKeys (issue : Issue) : Bool := issue.code = "NON_CANONICAL_PARAM_KEYS"

end Issue

namespace Review

variable (m : AuthoredModel) (catalog : Catalog) (r : Relation (Option AuthoredParams)) (i : Nat)

open Issue (Respelled)

/-! ### Errors -/

/-- A wrong value is as wrong under its Latin name. -/
theorem valueIssue?_inLatin (op : Option Operator) (reference : String) (params : AuthoredParams)
    (key : ParamKey) :
    Option.Rel (Respelled m.origin) (valueIssue? op reference (m.relationAt i) params key)
      (valueIssue? op reference (m.relationAt i) params.inLatin key) := by
  unfold valueIssue?
  rw [AuthoredParams.effective_inLatin]
  cases heffective : params.effective key with
  | none => exact .none
  | some raw =>
    have hname : params.inLatin.effectiveName key = key.latin := by
      rw [AuthoredParams.effectiveName, AuthoredParams.get_latin_inLatin, heffective]
      rfl
    rw [hname]
    refine rel_map (fun remark => ⟨rfl, rfl, rfl, ?_⟩) _
    by_cases hlatin : (params.latin.get key).isSome
    · left
      rw [AuthoredParams.effectiveName, if_pos hlatin]
    · right
      rw [AuthoredParams.effectiveName, if_neg hlatin]
      exact ⟨i, key, rfl, rfl⟩

theorem paramIssues_inLatin :
    List.Forall₂ (Respelled m.origin) (paramIssues catalog (m.relationAt i) r)
      (paramIssues catalog (m.relationAt i) r.inLatin) := by
  unfold paramIssues
  rw [r.givenParams_inLatin]
  cases r.givenParams with
  | none => exact .nil
  | some params => exact forall₂_filterMap (valueIssue?_inLatin m i _ _ params) _

/-- What else may be wrong with a relation has nothing to do with its parameters. -/
theorem faults_inLatin :
    List.Forall₂ (Respelled m.origin) (faults m catalog (r, i))
      (faults m.inLatin catalog (r.inLatin, i)) :=
  List.rel_append (Issue.forall₂_respelled_refl _) (paramIssues_inLatin m catalog r i)

theorem zipIdx_inLatin : m.inLatin.relations.zipIdx =
    m.relations.zipIdx.map fun entry => (entry.1.inLatin, entry.2) :=
  List.zipIdx_map

/-- **The errors of a review are the same in Latin spelling**, up to the names that their paths end
in, and to the order, which goes by the paths. -/
theorem errors_inLatin :
    Shuffle (Respelled m.origin) (ofModel m catalog).errors (ofModel m.inLatin catalog).errors := by
  have hfaults : List.Forall₂ (Respelled m.origin)
      (m.relations.zipIdx.flatMap (faults m catalog))
      (m.inLatin.relations.zipIdx.flatMap (faults m.inLatin catalog)) := by
    rw [zipIdx_inLatin, List.flatMap_map]
    exact forall₂_flatMap (f := faults m catalog)
      (g := fun entry => faults m.inLatin catalog (entry.1.inLatin, entry.2))
      (fun entry => faults_inLatin m catalog entry.1 entry.2) _
  have herrors (model : AuthoredModel) : (ofModel model catalog).errors.Perm
      (model.relations.zipIdx.flatMap (faults model catalog)) := by
    have hfold := foldl_errors model catalog model.relations.zipIdx
      { warnings := redundancyIssues model }
    exact (Issue.sort_perm _).trans (.of_eq hfold)
  exact .of_forall₂ hfaults (herrors m).symm (herrors m.inLatin).symm

/-! ### Warnings -/

theorem isInfinite_inLatin (params : AuthoredParams) (key : ParamKey) :
    isInfinite params.inLatin key = isInfinite params key := by
  rw [isInfinite, isInfinite, AuthoredParams.effective_inLatin]

theorem thresholdIssues_inLatin (place : Location) :
    thresholdIssues catalog place r.inLatin = thresholdIssues catalog place r := by
  unfold thresholdIssues
  rw [r.givenParams_inLatin]
  cases r.givenParams with
  | none => rfl
  | some params =>
    simp only [Option.map_some, isInfinite_inLatin]
    rfl

theorem adviceIssues_inLatin (place : Location) :
    adviceIssues place r.inLatin = (adviceIssues place r).filter (!·.namesGreekKeys) := by
  unfold adviceIssues
  rw [r.givenParams_inLatin]
  cases r.givenParams with
  | none => rfl
  | some params =>
    show (if params.inLatin.greekKeys.isEmpty then [] else _) = _
    rw [AuthoredParams.greekKeys_inLatin, List.isEmpty_nil, if_pos rfl]
    dsimp only
    split
    · rfl
    · rfl

theorem namesGreekKeys_thresholdIssues {place : Location} {issue : Issue}
    (h : issue ∈ thresholdIssues catalog place r) : issue.namesGreekKeys = false := by
  unfold thresholdIssues at h
  split at h
  · cases h
  · split at h
    · rw [List.mem_singleton.mp h]
      rfl
    · cases h

/-- In Latin spelling a relation is left with the same advice but for that. -/
theorem keptAdvice_inLatin :
    keptAdvice m.inLatin catalog (r.inLatin, i) =
      (keptAdvice m catalog (r, i)).filter (!·.namesGreekKeys) := by
  have hwrong := forall₂_isEmpty (paramIssues_inLatin m catalog r i)
  have hthreshold : (thresholdIssues catalog (m.relationAt i) r).filter (!·.namesGreekKeys) =
      thresholdIssues catalog (m.relationAt i) r :=
    List.filter_eq_self.mpr fun issue hissue => by
      rw [namesGreekKeys_thresholdIssues catalog r hissue, Bool.not_false]
  show (if (paramIssues catalog (m.relationAt i) r.inLatin).isEmpty then
      adviceIssues (m.relationAt i) r.inLatin else []) ++
    thresholdIssues catalog (m.relationAt i) r.inLatin = _
  rw [keptAdvice, List.filter_append, hthreshold, ← hwrong, adviceIssues_inLatin,
    thresholdIssues_inLatin]
  split
  · rfl
  · rfl

theorem namesGreekKeys_redundancyIssues {issue : Issue} (h : issue ∈ redundancyIssues m) :
    issue.namesGreekKeys = false := by
  obtain ⟨entry, -, hissue⟩ := List.mem_filterMap.mp h
  obtain ⟨remark, hremark, rfl⟩ := Option.map_eq_some_iff.mp hissue
  refine decide_eq_false fun hcode => ?_
  exact absurd ((of_redundancy? hremark).2.symm.trans hcode) (by decide)

/-- **The warnings of a review are the same in Latin spelling**, but for the advice to use Latin
names, of which nothing remains. -/
theorem warnings_inLatin (hapart : m.origin.KeepsApart) :
    (ofModel m.inLatin catalog).warnings =
      (ofModel m catalog).warnings.filter (!·.namesGreekKeys) := by
  have hredundant : (redundancyIssues m).filter (!·.namesGreekKeys) = redundancyIssues m :=
    List.filter_eq_self.mpr fun issue hissue => by
      rw [namesGreekKeys_redundancyIssues m hissue, Bool.not_false]
  have hadvice : m.inLatin.relations.zipIdx.flatMap (keptAdvice m.inLatin catalog) =
      (m.relations.zipIdx.flatMap (keptAdvice m catalog)).filter (!·.namesGreekKeys) := by
    rw [zipIdx_inLatin, List.flatMap_map, List.filter_flatMap]
    exact congrArg (List.flatMap · _) (funext fun entry =>
      keptAdvice_inLatin m catalog entry.1 entry.2)
  have hlatin : (ofModel m.inLatin catalog).warnings = Issue.sort (redundancyIssues m ++
      m.inLatin.relations.zipIdx.flatMap (keptAdvice m.inLatin catalog)) :=
    warnings_eq catalog hapart
  rw [hlatin, warnings_eq catalog hapart, hadvice, Issue.sort, Issue.sort, filter_sortOn_comm,
    List.filter_append, hredundant]

end Review
end EventPattern
