import EventPattern.Catalog.Embedded
import EventPattern.Proofs.Review.Repetition

/-! Warnings stay with what they are about.

Advice is taken back by going through everything that was advised so far, by its paths. Even so
each constraint and each relation has the warnings in the end that it is worth by itself
(`Constraint.Redundant`, `Relation.Advised`), whatever is wrong with the others: no path of a
relation leads into a constraint or into another relation (`Origin.IsKnown.apart`). -/
namespace EventPattern

open Location (Beneath)
open EventPattern.Relation.Part (NamesOperator)

/-! ### Where a model comes from -/

/-- The origins that models have: they are given as such, or come of a document. -/
inductive Origin.IsKnown : Origin → Prop where
  | plain : IsKnown .plain
  | document (doc : Document) : IsKnown doc.origin

namespace Origin.IsKnown

variable {o : Origin}

/-- Nothing is written beneath a relation and beneath a constraint. -/
theorem apart (h : o.IsKnown) {i k : Nat} {path : String}
    (hrelation : Beneath (Location.index o.relations i).text path) :
    ¬ Beneath (Location.index o.constraints k).text path := by
  cases h with
  | document doc => exact doc.apart hrelation
  | plain =>
    intro hconstraint
    have hrelations := (Location.beneath_indexText _ i).trans hrelation
    have hconstraints := (Location.beneath_indexText _ k).trans hconstraint
    exact absurd (Location.eq_of_beneath_keyText (by decide) (by decide) hrelations hconstraints)
      (by decide)

theorem keepsApart (h : o.IsKnown) : o.KeepsApart := fun _ _ hbeneath => h.apart hbeneath (.refl _)

theorem namesOperator (h : o.IsKnown) : NamesOperator o := by
  cases h with
  | document doc => exact doc.namesOperator
  | plain => exact ⟨"peratorId".toList, (by decide : "operatorId".toList = _)⟩

end Origin.IsKnown

/-! ### Constraints -/

namespace Constraint

variable (c : Constraint)

/-- A field that is the number zero, however it is written. -/
def HasZero (key : String) : Prop := ∃ n : Number, c.field? key = some (.number n) ∧ n.value = .zero

/-- A constraint that restricts nothing, and what is said of it. -/
inductive Redundant : Remark → Prop where
  | overlap (kind : c.kind = .overlapPercentage) (zero : c.HasZero "value") :
    Redundant .redundantOverlap
  | robustness (kind : c.kind = .robustness) (zero : c.HasZero "value") :
    Redundant .redundantRobustness
  | cardinality (kind : c.kind = .cardinality) (zero : c.HasZero "min") :
    Redundant .redundantCardinality

theorem hasZero_iff (key : String) :
    (((c.field? key).bind Json.number?).any fun n => n.value = .zero) = true ↔ c.HasZero key := by
  unfold HasZero
  rw [Option.any_eq_true]
  constructor
  · intro h
    obtain ⟨n, hn, hzero⟩ := h
    obtain ⟨json, hjson, hnumber⟩ := Option.bind_eq_some_iff.mp hn
    cases json <;> cases hnumber
    exact ⟨_, hjson, of_decide_eq_true hzero⟩
  · intro h
    obtain ⟨n, hfield, hzero⟩ := h
    refine ⟨n, ?_, decide_eq_true hzero⟩
    rw [hfield]
    rfl

theorem redundancy?_eq_some {c : Constraint} {remark : Remark} :
    Review.redundancy? c = some remark ↔ c.Redundant remark := by
  constructor
  · intro h
    cases hkind : c.kind <;>
      simp only [Review.redundancy?, hkind, hasZero_iff, Option.ite_none_right_eq_some,
        Option.some.injEq, reduceCtorEq] at h
    case overlapPercentage => exact h.2 ▸ .overlap hkind h.1
    case robustness => exact h.2 ▸ .robustness hkind h.1
    case cardinality => exact h.2 ▸ .cardinality hkind h.1
  · intro h
    cases h with
    | overlap hkind hzero | robustness hkind hzero | cardinality hkind hzero =>
      simp only [Review.redundancy?, hkind, hasZero_iff, hzero, if_true]

/-- The warning that a constraint at a place is worth. -/
def Advised (place : Location) (issue : Issue) : Prop :=
  ∃ remark, c.Redundant remark ∧ issue = remark.issue place

theorem Advised.path_eq {c : Constraint} {place : Location} {issue : Issue}
    (h : c.Advised place issue) : issue.path = place.text := by
  obtain ⟨remark, -, rfl⟩ := h
  rfl

end Constraint

/-! ### Relations -/

namespace Relation

variable (catalog : Catalog) (place : Location) (r : Relation (Option AuthoredParams))

/-- The threshold that counts is the infinite one. -/
def AllowsAny (key : ParamKey) : Prop :=
  ∃ raw, r.authored key = some raw ∧ Threshold.ofJson? raw = some .infinite

/-- The warnings that a relation at a place is worth. -/
inductive Advised : Issue → Prop where
  | missingParams (none : r.givenParams = none) :
    Advised ((Remark.missingParams r.id).issue (.key place "params"))
  | greekKeys {params : AuthoredParams} {key : ParamKey} (given : r.givenParams = some params)
      (greek : (params.greek.get key).isSome)
      (allowed : ∀ key raw, r.authored key = some raw →
        Review.IsAllowed (catalog.lookup? r.operator) key raw) :
    Advised ((Remark.greekKeys params.greekKeys).issue (.key place "params"))
  | permissiveThresholds (known : (catalog.lookup? r.operator).isSome) (delta : r.AllowsAny .delta)
      (epsilon : r.AllowsAny .epsilon) :
    Advised ((Remark.permissiveThresholds r.operator).issue place)

variable {catalog place r} in
theorem Advised.beneath {issue : Issue} (h : r.Advised catalog place issue) :
    Beneath place.text issue.path := by
  cases h with
  | missingParams | greekKeys => exact Location.beneath_keyText _ _
  | permissiveThresholds => exact .refl _

theorem isInfinite_iff {r : Relation (Option AuthoredParams)} {params : AuthoredParams}
    (h : r.givenParams = some params) (key : ParamKey) :
    Review.isInfinite params key = true ↔ r.AllowsAny key := by
  unfold Review.isInfinite AllowsAny
  rw [r.authored_eq, h, Option.bind_some, Option.any_eq_true]
  constructor
  · intro hany
    obtain ⟨threshold, hthreshold, hinfinite⟩ := hany
    obtain ⟨raw, hraw, hread⟩ := Option.bind_eq_some_iff.mp hthreshold
    exact ⟨raw, hraw, hread.trans (congrArg some (of_decide_eq_true hinfinite))⟩
  · intro hallows
    obtain ⟨raw, hraw, hread⟩ := hallows
    exact ⟨.infinite, Option.bind_eq_some_iff.mpr ⟨raw, hraw, hread⟩, rfl⟩

theorem mem_thresholdIssues {issue : Issue} :
    issue ∈ Review.thresholdIssues catalog place r ↔
      ((catalog.lookup? r.operator).isSome ∧ r.AllowsAny .delta ∧ r.AllowsAny .epsilon) ∧
        issue = (Remark.permissiveThresholds r.operator).issue place := by
  unfold Review.thresholdIssues
  cases hgiven : r.givenParams with
  | none =>
    refine iff_of_false List.not_mem_nil fun h => ?_
    obtain ⟨⟨-, ⟨raw, hraw, -⟩, -⟩, -⟩ := h
    rw [r.authored_eq, hgiven] at hraw
    cases hraw
  | some params =>
    rw [← isInfinite_iff hgiven, ← isInfinite_iff hgiven]
    simp only [Bool.and_eq_true, and_assoc]
    split
    · next h => simp [h]
    · next h =>
      refine iff_of_false List.not_mem_nil fun hadvised => h ?_
      exact ⟨hadvised.1, hadvised.2.1, hadvised.2.2.1⟩

theorem greekKeys_ne_nil (params : AuthoredParams) :
    params.greekKeys ≠ [] ↔ ∃ key, (params.greek.get key).isSome := by
  constructor
  · intro h
    obtain ⟨name, hname⟩ := List.exists_mem_of_ne_nil _ h
    obtain ⟨key, hkey, -⟩ := List.mem_map.mp ((mem_sortOn _).mp hname)
    exact ⟨key, (List.mem_filter.mp hkey).2⟩
  · intro h
    obtain ⟨key, hkey⟩ := h
    exact List.ne_nil_of_mem (Review.mem_greekKeys hkey)

theorem mem_adviceIssues {issue : Issue} :
    issue ∈ Review.adviceIssues place r ↔
      (r.givenParams = none ∧ issue = (Remark.missingParams r.id).issue (.key place "params")) ∨
      ∃ params, r.givenParams = some params ∧ (∃ key, (params.greek.get key).isSome) ∧
        issue = (Remark.greekKeys params.greekKeys).issue (.key place "params") := by
  unfold Review.adviceIssues
  cases r.givenParams with
  | none => simp [missingParamsIssue, Remark.issue, Location.text]
  | some params =>
    simp only [Option.some.injEq, reduceCtorEq, false_and, false_or, exists_eq_left',
      ← greekKeys_ne_nil, List.isEmpty_iff]
    split
    · next h => simp [h]
    · next h => simp [h]

/-- **The advice that a relation is left with is what it is worth.** -/
theorem mem_keptAdvice {model : AuthoredModel} {i : Nat} {issue : Issue} :
    issue ∈ Review.keptAdvice model catalog (r, i) ↔
      r.Advised catalog (model.relationAt i) issue := by
  have hallowed := Review.paramIssues_eq_nil catalog (model.relationAt i) r
  have hnone (h : r.givenParams = none) :
      Review.paramIssues catalog (model.relationAt i) r = [] := by
    rw [Review.paramIssues, h]
  rw [Review.keptAdvice, List.mem_append, mem_thresholdIssues]
  constructor
  · intro h
    rcases h with h | ⟨⟨hknown, hdelta, hepsilon⟩, rfl⟩
    · split at h
      · next hempty =>
        rcases (mem_adviceIssues _ r).mp h with ⟨hgiven, rfl⟩ | ⟨params, hgiven, ⟨key, hkey⟩, rfl⟩
        · exact .missingParams hgiven
        · exact .greekKeys hgiven hkey (hallowed.mp (List.isEmpty_iff.mp hempty))
      · cases h
    · exact .permissiveThresholds hknown hdelta hepsilon
  · intro h
    cases h with
    | missingParams hgiven =>
      rw [hnone hgiven]
      exact .inl ((mem_adviceIssues _ r).mpr (.inl ⟨hgiven, rfl⟩))
    | greekKeys hgiven hgreek hvalues =>
      rw [hallowed.mpr hvalues]
      exact .inl ((mem_adviceIssues _ r).mpr (.inr ⟨_, hgiven, ⟨_, hgreek⟩, rfl⟩))
    | permissiveThresholds hknown hdelta hepsilon => exact .inr ⟨⟨hknown, hdelta, hepsilon⟩, rfl⟩

end Relation

/-! ### The review -/

namespace Review

variable (model : AuthoredModel) (catalog : Catalog)

theorem mem_redundancyIssues {issue : Issue} :
    issue ∈ redundancyIssues model ↔ ∃ (k : Nat) (c : Constraint),
      model.constraints[k]? = some c ∧ c.Advised (model.constraintAt k) issue := by
  unfold redundancyIssues
  rw [List.mem_filterMap]
  constructor
  · intro h
    obtain ⟨⟨c, k⟩, hc, hissue⟩ := h
    obtain ⟨remark, hremark, rfl⟩ := Option.map_eq_some_iff.mp hissue
    exact ⟨k, c, List.mem_zipIdx_iff_getElem?.mp hc, remark,
      Constraint.redundancy?_eq_some.mp hremark, rfl⟩
  · intro h
    obtain ⟨k, c, hc, remark, hredundant, rfl⟩ := h
    refine ⟨(c, k), List.mem_zipIdx_iff_getElem?.mpr hc, ?_⟩
    exact congrArg (Option.map _) (Constraint.redundancy?_eq_some.mpr hredundant)

/-- Every warning is about one constraint or one relation, and is what that is worth. -/
structure LocalWarnings : Prop where
  perm : (ofModel model catalog).warnings.Perm
    (redundancyIssues model ++ model.relations.zipIdx.flatMap (keptAdvice model catalog))
  nodup : (ofModel model catalog).warnings.Nodup
  exact : ∀ issue, issue ∈ (ofModel model catalog).warnings ↔
    (∃ (k : Nat) (c : Constraint), model.constraints[k]? = some c ∧
      c.Advised (model.constraintAt k) issue) ∨
    ∃ (i : Nat) (r : Relation (Option AuthoredParams)), model.relations[i]? = some r ∧
      r.Advised catalog (model.relationAt i) issue
  constraint : ∀ (k : Nat) (c : Constraint), model.constraints[k]? = some c → ∀ issue : Issue,
    (issue ∈ (ofModel model catalog).warnings ∧ issue.isWithin (model.constraintAt k).text) ↔
      c.Advised (model.constraintAt k) issue
  relation : ∀ (i : Nat) (r : Relation (Option AuthoredParams)), model.relations[i]? = some r →
    ∀ issue : Issue,
    (issue ∈ (ofModel model catalog).warnings ∧ issue.isWithin (model.relationAt i).text) ↔
      r.Advised catalog (model.relationAt i) issue

variable {model}

section Origins
variable (ho : model.origin.IsKnown)
include ho

theorem warnings_perm : (ofModel model catalog).warnings.Perm
    (redundancyIssues model ++ model.relations.zipIdx.flatMap (keptAdvice model catalog)) := by
  rw [warnings_eq catalog ho.keepsApart]
  exact Issue.sort_perm _

theorem mem_warnings_iff (issue : Issue) : issue ∈ (ofModel model catalog).warnings ↔
    (∃ (k : Nat) (c : Constraint), model.constraints[k]? = some c ∧
      c.Advised (model.constraintAt k) issue) ∨
    ∃ (i : Nat) (r : Relation (Option AuthoredParams)), model.relations[i]? = some r ∧
      r.Advised catalog (model.relationAt i) issue := by
  rw [(warnings_perm catalog ho).mem_iff, List.mem_append, mem_redundancyIssues, List.mem_flatMap]
  refine or_congr .rfl ⟨fun h => ?_, fun h => ?_⟩
  · obtain ⟨⟨r, i⟩, hr, hissue⟩ := h
    exact ⟨i, r, List.mem_zipIdx_iff_getElem?.mp hr, (Relation.mem_keptAdvice catalog r).mp hissue⟩
  · obtain ⟨i, r, hr, hissue⟩ := h
    exact ⟨(r, i), List.mem_zipIdx_iff_getElem?.mpr hr,
      (Relation.mem_keptAdvice catalog r).mpr hissue⟩

/-- A warning at a constraint is of that constraint. -/
theorem advised_at_constraint {k : Nat} {c : Constraint} (hc : model.constraints[k]? = some c)
    {issue : Issue} (hissue : issue ∈ (ofModel model catalog).warnings)
    (hbeneath : Beneath (model.constraintAt k).text issue.path) :
    c.Advised (model.constraintAt k) issue := by
  rcases (mem_warnings_iff catalog ho issue).mp hissue with
    ⟨other, d, hd, hadvised⟩ | ⟨i, r, -, hadvised⟩
  · have hown : Beneath (model.constraintAt other).text issue.path := hadvised.path_eq ▸ .refl _
    have hsame : other = k := Location.eq_of_beneath_indexText hown hbeneath
    subst hsame
    rw [hc] at hd
    cases hd
    exact hadvised
  · exact absurd hbeneath (ho.apart hadvised.beneath)

/-- And one at a relation is of that relation. -/
theorem advised_at_relation {i : Nat} {r : Relation (Option AuthoredParams)}
    (hr : model.relations[i]? = some r) {issue : Issue}
    (hissue : issue ∈ (ofModel model catalog).warnings)
    (hbeneath : Beneath (model.relationAt i).text issue.path) :
    r.Advised catalog (model.relationAt i) issue := by
  rcases (mem_warnings_iff catalog ho issue).mp hissue with
    ⟨k, c, -, hadvised⟩ | ⟨other, s, hs, hadvised⟩
  · have hown : Beneath (model.constraintAt k).text issue.path := hadvised.path_eq ▸ .refl _
    exact absurd hown (ho.apart hbeneath)
  · have hsame : other = i := Location.eq_of_beneath_indexText hadvised.beneath hbeneath
    subst hsame
    rw [hr] at hs
    cases hs
    exact hadvised

/-- **Warnings stay with what they are about.** -/
theorem localWarnings : LocalWarnings model catalog where
  perm := warnings_perm catalog ho
  nodup := nodup_warnings catalog ho.keepsApart ho.namesOperator
  exact := mem_warnings_iff catalog ho
  constraint k c hc issue := by
    rw [Issue.isWithin_iff]
    constructor
    · intro h
      exact advised_at_constraint catalog ho hc h.1 h.2
    · intro h
      exact ⟨(mem_warnings_iff catalog ho issue).mpr (.inl ⟨k, c, hc, h⟩), h.path_eq ▸ .refl _⟩
  relation i r hr issue := by
    rw [Issue.isWithin_iff]
    constructor
    · intro h
      exact advised_at_relation catalog ho hr h.1 h.2
    · intro h
      exact ⟨(mem_warnings_iff catalog ho issue).mpr (.inr ⟨i, r, hr, h⟩), h.beneath⟩

end Origins

/-- **The warnings of a review are local.** Each constraint and each relation has those that it is
worth by itself, so in another model in which it is the same, at the same place, it has the same
warnings, whatever is wrong with the others in either of the two. -/
theorem warnings_local (ho : model.origin.IsKnown) :
    LocalWarnings model catalog ∧
    ∀ other : AuthoredModel, other.origin = model.origin → ∀ issue : Issue,
      (∀ (k : Nat) (c : Constraint), model.constraints[k]? = some c →
        other.constraints[k]? = some c → issue.isWithin (model.constraintAt k).text →
        (issue ∈ (ofModel other catalog).warnings ↔ issue ∈ (ofModel model catalog).warnings)) ∧
      ∀ (i : Nat) (r : Relation (Option AuthoredParams)), model.relations[i]? = some r →
        other.relations[i]? = some r → issue.isWithin (model.relationAt i).text →
        (issue ∈ (ofModel other catalog).warnings ↔ issue ∈ (ofModel model catalog).warnings) := by
  have hlocal := localWarnings catalog ho
  refine ⟨hlocal, fun other horigin issue => ?_⟩
  have hlocal' := localWarnings catalog (horigin ▸ ho : other.origin.IsKnown)
  constructor
  · intro k c hc hc' hwithin
    have hplace : other.constraintAt k = model.constraintAt k :=
      congrArg (fun origin : Origin => Location.index origin.constraints k) horigin
    have hother := hlocal'.constraint k c hc' issue
    rw [hplace, ← hlocal.constraint k c hc issue] at hother
    simpa [hwithin] using hother
  · intro i r hr hr' hwithin
    have hplace : other.relationAt i = model.relationAt i :=
      congrArg (fun origin : Origin => Location.index origin.relations i) horigin
    have hother := hlocal'.relation i r hr' issue
    rw [hplace, ← hlocal.relation i r hr issue] at hother
    simpa [hwithin] using hother

/-- A relation of one operator with some parameters. -/
def guidedRelation (params : List (String × Json)) : Relation (Option AuthoredParams) where
  id := "r"
  left := "a"
  right := "b"
  operator := "Bef"
  params := some (.ofFields params)

/-- A model whose relation at 1 has a wrong value, or has not, and that has advice on its relation
at 10 and on a constraint. -/
def guidedModel (zeta : String) : AuthoredModel where
  schemaVersion := "1.0"
  id := "m"
  relations := [guidedRelation [],
    guidedRelation [("zeta", .string zeta), ("δ", .string "∞"), ("epsilon", .string "∞")]] ++
    List.replicate 8 (guidedRelation [("zeta", .string "<")]) ++
    [guidedRelation [("ζ", .string "<")]]
  constraints := [{ id := "c", kind := .robustness, payload := [("value", .number .negativeZero)] }]

/-- The wrong value takes the advice on its own spelling away, and no other. -/
theorem guidedModel_warnings :
    LocalWarnings (guidedModel "no") .embedded ∧
    (ofModel (guidedModel "no") .embedded).warnings.map (fun issue => (issue.code, issue.path)) =
      [("REDUNDANT_CONSTRAINT", "$.constraints[0]"), ("MISSING_PARAMS", "$.expressions[0].params"),
        ("NON_CANONICAL_PARAM_KEYS", "$.expressions[10].params"),
        ("SUSPICIOUS_THRESHOLDS", "$.expressions[1]")] ∧
    (ofModel (guidedModel "<") .embedded).warnings.length = 5 ∧
    ∀ issue : Issue, issue.isWithin "$.expressions[10]" →
      (issue ∈ (ofModel (guidedModel "<") .embedded).warnings ↔
        issue ∈ (ofModel (guidedModel "no") .embedded).warnings) := by
  have hplain : (guidedModel "no").origin.IsKnown := .plain
  obtain ⟨hlocal, hunaffected⟩ := warnings_local .embedded hplain
  refine ⟨hlocal, by decide +kernel, by decide +kernel, fun issue hwithin => ?_⟩
  exact (hunaffected (guidedModel "<") rfl issue).2 10 _ rfl rfl hwithin

end Review
end EventPattern
