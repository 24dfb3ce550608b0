import EventPattern.Proofs.Review.Faults

/-! What a review advises.

The warnings of a review are advice on its relations and constraints and nothing else
(`mem_warnings`), so they can never be taken for errors. Only a wrong value retracts advice.
Where every relation is sound there is none, and all of the advice is given
(`mem_warnings_of_sound`). In particular the Greek spellings of a relation are always pointed
out (`greekKeys_advised`). -/
namespace EventPattern.Review

variable (model : AuthoredModel) (catalog : Catalog)

/-- The advice on the relation at a position. -/
def advice (entry : Relation (Option AuthoredParams) × Nat) : List Issue :=
  adviceIssues (model.relationAt entry.2) entry.1 ++
    thresholdIssues catalog (model.relationAt entry.2) entry.1

/-- A relation adds no other warnings than the advice on it. -/
theorem mem_addRelation_warnings {review : Review}
    {entry : Relation (Option AuthoredParams) × Nat} {issue : Issue}
    (h : issue ∈ (addRelation model catalog review entry).warnings) :
    issue ∈ review.warnings ∨ issue ∈ advice model catalog entry := by
  have hkept {kept : List Issue} (hsubset : kept ⊆
      review.warnings ++ adviceIssues (model.relationAt entry.2) entry.1)
      (hmem : issue ∈ kept ++ thresholdIssues catalog (model.relationAt entry.2) entry.1) :
      issue ∈ review.warnings ∨ issue ∈ advice model catalog entry := by
    rcases List.mem_append.mp hmem with hmem | hmem
    · rcases List.mem_append.mp (hsubset hmem) with hmem | hmem
      · exact .inl hmem
      · exact .inr (List.mem_append_left _ hmem)
    · exact .inr (List.mem_append_right _ hmem)
  simp only [addRelation] at h
  split at h
  · exact hkept (List.Subset.refl _) h
  · exact hkept (List.filter_subset_self _) h

theorem mem_foldl_warnings {entries : List (Relation (Option AuthoredParams) × Nat)}
    {review : Review} {issue : Issue}
    (h : issue ∈ (entries.foldl (addRelation model catalog) review).warnings) :
    issue ∈ review.warnings ∨ ∃ entry ∈ entries, issue ∈ advice model catalog entry := by
  induction entries generalizing review with
  | nil => exact .inl h
  | cons entry rest ih =>
    rcases ih h with h | ⟨other, hother, hadvice⟩
    · rcases mem_addRelation_warnings model catalog h with h | hadvice
      · exact .inl h
      · exact .inr ⟨entry, List.mem_cons_self .., hadvice⟩
    · exact .inr ⟨other, List.mem_cons_of_mem _ hother, hadvice⟩

/-- The warnings of a review are advice, on its constraints and on its relations. -/
theorem mem_warnings {issue : Issue} (h : issue ∈ (ofModel model catalog).warnings) :
    issue ∈ redundancyIssues model ∨
      ∃ entry ∈ model.relations.zipIdx, issue ∈ advice model catalog entry :=
  mem_foldl_warnings model catalog (Issue.mem_sort.mp h)

/-! ### Severities -/

/-- The advice on a constraint is a warning of one code. -/
theorem of_redundancy? {c : Constraint} {remark : Remark} (h : redundancy? c = some remark) :
    remark.severity = .warning ∧ remark.code = "REDUNDANT_CONSTRAINT" := by
  simp only [redundancy?] at h
  split at h
  · split at h <;> cases h
    exact ⟨rfl, rfl⟩
  · split at h <;> cases h
    exact ⟨rfl, rfl⟩
  · split at h <;> cases h
    exact ⟨rfl, rfl⟩
  · cases h

/-- The advice on a relation is a warning. -/
theorem severity_of_advice {place : Location} {r : Relation (Option AuthoredParams)}
    {issue : Issue} (h : issue ∈ adviceIssues place r ∨ issue ∈ thresholdIssues catalog place r) :
    issue.severity = .warning := by
  rcases h with h | h
  · unfold adviceIssues at h
    split at h
    · rw [List.mem_singleton.mp h]
      rfl
    · split at h
      · cases h
      · rw [List.mem_singleton.mp h]
        rfl
  · unfold thresholdIssues at h
    split at h
    · cases h
    · split at h
      · rw [List.mem_singleton.mp h]
        rfl
      · cases h

theorem warnings_severity :
    ∀ issue ∈ (ofModel model catalog).warnings, issue.severity = .warning := by
  intro issue hissue
  rcases mem_warnings model catalog hissue with hredundant | ⟨entry, -, hadvice⟩
  · obtain ⟨⟨c, i⟩, -, hredundant⟩ := List.mem_filterMap.mp hredundant
    obtain ⟨remark, hremark, rfl⟩ := Option.map_eq_some_iff.mp hredundant
    exact (of_redundancy? hremark).1
  · exact severity_of_advice catalog (List.mem_append.mp hadvice)

/-! ### Without faults -/

theorem addRelation_warnings (review : Review) {entry : Relation (Option AuthoredParams) × Nat}
    (h : paramIssues catalog (model.relationAt entry.2) entry.1 = []) :
    (addRelation model catalog review entry).warnings =
      review.warnings ++ advice model catalog entry := by
  simp only [addRelation, h, List.isEmpty_nil, if_true, advice, List.append_assoc]

theorem foldl_warnings_of_allowed (entries : List (Relation (Option AuthoredParams) × Nat))
    (review : Review)
    (h : ∀ entry ∈ entries, paramIssues catalog (model.relationAt entry.2) entry.1 = []) :
    (entries.foldl (addRelation model catalog) review).warnings =
      review.warnings ++ entries.flatMap (advice model catalog) := by
  induction entries generalizing review with
  | nil => simp
  | cons entry rest ih =>
    obtain ⟨hentry, hrest⟩ := List.forall_mem_cons.mp h
    rw [List.foldl_cons, ih _ hrest, addRelation_warnings model catalog review hentry,
      List.flatMap_cons, List.append_assoc]

variable {model catalog}

/-- **Without faults, no advice is lost.** -/
theorem mem_warnings_of_sound (h : ∀ r ∈ model.relations, Sound model catalog r)
    {issue : Issue} :
    issue ∈ (ofModel model catalog).warnings ↔
      issue ∈ redundancyIssues model ∨
        ∃ entry ∈ model.relations.zipIdx, issue ∈ advice model catalog entry := by
  have hallowed : ∀ entry ∈ model.relations.zipIdx,
      paramIssues catalog (model.relationAt entry.2) entry.1 = [] := by
    intro entry hentry
    have hmem := List.mem_of_getElem? (List.mem_zipIdx_iff_getElem?.mp hentry)
    exact (paramIssues_eq_nil catalog _ _).mpr (h entry.1 hmem).values
  show issue ∈ Issue.sort _ ↔ _
  rw [Issue.sort, mem_sortOn, foldl_warnings_of_allowed model catalog _ _ hallowed,
    List.mem_append, List.mem_flatMap]

/-! ### Greek spellings -/

theorem mem_greekKeys {params : AuthoredParams} {key : ParamKey}
    (h : (params.greek.get key).isSome) : key.greek ∈ params.greekKeys := by
  unfold AuthoredParams.greekKeys
  refine (mem_sortOn _).mpr (List.mem_map_of_mem ?_)
  exact List.mem_filter.mpr ⟨key.mem_all, h⟩

theorem givenParams_of_greek {r : Relation (Option AuthoredParams)} {params : AuthoredParams}
    {key : ParamKey} (hparams : r.params = some params) (h : (params.greek.get key).isSome) :
    r.givenParams = some params := by
  have hfilled : params.isEmpty = false := by
    refine Bool.eq_false_iff.mpr fun hempty => ?_
    obtain ⟨-, hgreek⟩ := Bool.and_eq_true_iff.mp hempty
    rw [(ParamRecord.isEmpty_iff _).mp hgreek key] at h
    cases h
  rw [Relation.givenParams, hparams, Option.filter_some_pos (by simp [hfilled])]

/-- A Greek spelling is named in a warning on the parameters of its relation. -/
theorem greekKeys_advised (h : ∀ r ∈ model.relations, Sound model catalog r) {i : Nat}
    {r : Relation (Option AuthoredParams)} {params : AuthoredParams} {key : ParamKey}
    (hr : model.relations[i]? = some r) (hparams : r.params = some params)
    (hgreek : (params.greek.get key).isSome) :
    ∃ names, key.greek ∈ names ∧
      (Remark.greekKeys names).issue (.key (model.relationAt i) "params") ∈
        (ofModel model catalog).warnings := by
  have hkey := mem_greekKeys hgreek
  have hadvice : adviceIssues (model.relationAt i) r =
      [(Remark.greekKeys params.greekKeys).issue (.key (model.relationAt i) "params")] := by
    have hsome : params.greekKeys.isEmpty = false :=
      List.isEmpty_eq_false_iff_exists_mem.mpr ⟨key.greek, hkey⟩
    simp only [adviceIssues, givenParams_of_greek hparams hgreek, hsome, Bool.false_eq_true,
      if_false]
  refine ⟨params.greekKeys, hkey, (mem_warnings_of_sound h).mpr (.inr ⟨(r, i), ?_, ?_⟩)⟩
  · exact List.mem_zipIdx_iff_getElem?.mpr hr
  · rw [advice, hadvice]
    exact List.mem_append_left _ (List.mem_singleton.mpr rfl)

end EventPattern.Review
