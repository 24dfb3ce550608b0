import EventPattern.Catalog.Embedded
import EventPattern.Proofs.Compilation.IssueOrder
import EventPattern.Proofs.Compilation.IssuePlaces

/-! Relations without parameters.

They are pointed out twice: as soon as the document is read (`Document.missingParamsIssues`), and
in the review of its model. The second time says the same as the first, since a relation without
parameters has no wrong value that could take the advice on it back
(`mem_warnings_of_missingParams`). What is said first is the part of the review that has its code
(`Document.sort_missingParamsIssues`), so the two come to what the review alone says
(`Document.warnings_eq_review`), and there each such relation is pointed out once
(`missingParams_exact`). -/
namespace EventPattern

/-! ### What the review says of missing parameters -/

namespace Review

variable {model : AuthoredModel} (catalog : Catalog)

/-- Parameters that are missing have no wrong values. -/
theorem mem_warnings_of_missingParams (hapart : model.origin.KeepsApart) {i : Nat}
    {r : Relation (Option AuthoredParams)} (hr : model.relations[i]? = some r)
    (hnone : r.givenParams = none) :
    missingParamsIssue (model.relationAt i).text r.id ∈ (ofModel model catalog).warnings := by
  have hright : paramIssues catalog (model.relationAt i) r = [] := by
    rw [paramIssues, hnone]
  have hadvice : missingParamsIssue (model.relationAt i).text r.id ∈
      keptAdvice model catalog (r, i) := by
    refine List.mem_append_left _ ?_
    rw [hright, List.isEmpty_nil, if_pos rfl, adviceIssues, hnone]
    exact List.mem_singleton.mpr rfl
  rw [warnings_eq catalog hapart, Issue.mem_sort]
  exact List.mem_append_right _
    (List.mem_flatMap.mpr ⟨(r, i), List.mem_zipIdx_iff_getElem?.mpr hr, hadvice⟩)

/-- No other advice has that code. -/
theorem missingParams_of_code {issue : Issue} (h : issue ∈ (ofModel model catalog).warnings)
    (hcode : issue.code = "MISSING_PARAMS") :
    ∃ i r, model.relations[i]? = some r ∧ r.givenParams = none ∧
      issue = missingParamsIssue (model.relationAt i).text r.id := by
  rcases mem_warnings model catalog h with hredundant | ⟨⟨r, i⟩, hentry, hadvice⟩
  · obtain ⟨⟨c, k⟩, -, hissue⟩ := List.mem_filterMap.mp hredundant
    obtain ⟨remark, hremark, rfl⟩ := Option.map_eq_some_iff.mp hissue
    exact absurd ((of_redundancy? hremark).2.symm.trans hcode) (by decide)
  · rcases List.mem_append.mp hadvice with hadvice | hthreshold
    · unfold adviceIssues at hadvice
      split at hadvice
      · next hnone =>
        exact ⟨i, r, List.mem_zipIdx_iff_getElem?.mp hentry, hnone, List.mem_singleton.mp hadvice⟩
      · split at hadvice
        · cases hadvice
        · rw [List.mem_singleton.mp hadvice] at hcode
          exact absurd hcode (by decide : "NON_CANONICAL_PARAM_KEYS" ≠ "MISSING_PARAMS")
    · unfold thresholdIssues at hthreshold
      split at hthreshold
      · cases hthreshold
      · split at hthreshold
        · rw [List.mem_singleton.mp hthreshold] at hcode
          exact absurd hcode (by decide : "SUSPICIOUS_THRESHOLDS" ≠ "MISSING_PARAMS")
        · cases hthreshold

end Review

/-! ### Saying it twice -/

namespace Document

variable {input : Json} {doc : Document} {catalog : Catalog}

theorem review_warnings_ordered (doc : Document) (catalog : Catalog) :
    Issue.Ordered .warning (Review.ofModel doc.model catalog).warnings :=
  ⟨Review.warnings_severity doc.model catalog,
    Review.nodup_warnings catalog doc.model_keepsApart doc.model_namesOperator,
    Issue.sort_sort _⟩

theorem mem_missingParamsIssues {issue : Issue} :
    issue ∈ doc.missingParamsIssues ↔ ∃ i r, doc.model.relations[i]? = some r ∧
      r.givenParams = none ∧ issue = missingParamsIssue (doc.model.relationAt i).text r.id := by
  rw [missingParamsIssues_eq, List.mem_filterMap]
  constructor
  · rintro ⟨⟨r, i⟩, hentry, hissue⟩
    split at hissue
    · next hnone =>
      cases hissue
      exact ⟨i, r, List.mem_zipIdx_iff_getElem?.mp hentry, Option.isNone_iff_eq_none.mp hnone, rfl⟩
    · cases hissue
  · rintro ⟨i, r, hr, hnone, rfl⟩
    exact ⟨(r, i), List.mem_zipIdx_iff_getElem?.mpr hr,
      if_pos (Option.isNone_iff_eq_none.mpr hnone)⟩

theorem missingParamsIssues_sublist (doc : Document) :
    (doc.missingParamsIssues.map Issue.path).Sublist (doc.model.relations.zipIdx.map fun entry =>
      (Location.key (doc.model.relationAt entry.2) "params").text) := by
  rw [missingParamsIssues_eq]
  refine map_filterMap_sublist (fun entry issue hissue => ?_) _
  split at hissue
  · cases hissue
    rfl
  · cases hissue

theorem nodup_missingParamsIssues (doc : Document) : doc.missingParamsIssues.Nodup := by
  have hpaths := (List.nodup_zipIdx_map_snd doc.model.relations).map fun i j
    (h : (Location.key (doc.model.relationAt i) "params").text =
      (Location.key (doc.model.relationAt j) "params").text) =>
      Location.indexText_right_inj (Location.keyText_left_inj h)
  rw [List.map_map] at hpaths
  exact (doc.missingParamsIssues_sublist.nodup hpaths).of_map

/-- What the document shows of missing parameters is what its review says of them. -/
theorem mem_missingParamsIssues_iff_review (catalog : Catalog) {issue : Issue} :
    issue ∈ doc.missingParamsIssues ↔
      issue ∈ (Review.ofModel doc.model catalog).warnings ∧ issue.code = "MISSING_PARAMS" := by
  rw [mem_missingParamsIssues]
  constructor
  · rintro ⟨i, r, hr, hnone, rfl⟩
    exact ⟨Review.mem_warnings_of_missingParams catalog doc.model_keepsApart hr hnone, rfl⟩
  · rintro ⟨hissue, hcode⟩
    exact Review.missingParams_of_code catalog hissue hcode

theorem sort_missingParamsIssues (doc : Document) (catalog : Catalog) :
    Issue.sort doc.missingParamsIssues =
      (Review.ofModel doc.model catalog).warnings.filter (·.code = "MISSING_PARAMS") := by
  have hreview := doc.review_warnings_ordered catalog
  have hperm : doc.missingParamsIssues.Perm
      ((Review.ofModel doc.model catalog).warnings.filter (·.code = "MISSING_PARAMS")) := by
    refine (List.perm_ext_iff_of_nodup doc.nodup_missingParamsIssues
      (hreview.distinct.filter _)).mpr fun issue => ?_
    rw [mem_missingParamsIssues_iff_review catalog, List.mem_filter, decide_eq_true_iff]
  rw [Issue.sort_eq_of_perm doc.severity_of_missingParams hperm]
  exact (filter_sortOn_comm Issue.sortKey _ _).symm.trans
    (congrArg (List.filter _) hreview.sorted)

/-- **What the document shows of missing parameters adds nothing to the review.** -/
theorem warnings_eq_review (doc : Document) (catalog : Catalog) :
    doc.warnings catalog = (Review.ofModel doc.model catalog).warnings := by
  have hreview := doc.review_warnings_ordered catalog
  have hmembers (issue : Issue) : issue ∈ (Review.ofModel doc.model catalog).warnings ↔
      issue ∈ Issue.sort (Issue.distinct doc.missingParamsIssues) ++
        (Review.ofModel doc.model catalog).warnings := by
    rw [List.mem_append, Issue.mem_sort, Issue.mem_distinct,
      mem_missingParamsIssues_iff_review catalog]
    exact (or_iff_right_of_imp And.left).symm
  rw [warnings, ← Issue.sort_distinct_eq hreview.all hmembers,
    Issue.distinct_of_nodup hreview.distinct, hreview.sorted]

/-- Parameters are missing from a relation as it is written when none are read off it. -/
theorem IsRelation.lacksParams_iff {origin : Origin} {ids : List String} {json : Json}
    {r : Relation (Option AuthoredParams)} (h : IsRelation origin ids json r) :
    json.LacksParams ↔ r.givenParams = none := by
  refine ⟨fun hlacks => ?_, h.lacksParams⟩
  obtain ⟨fields, rfl, hfields⟩ := h
  unfold Json.LacksParams at hlacks
  rw [Json.get?_object] at hlacks
  have hempty : (r.params.all AuthoredParams.isEmpty) = true := by
    rcases hfields.params with ⟨-, hnone⟩ | ⟨value, hget, ⟨-, hnone⟩ | ⟨inner, rfl, -, hparams⟩⟩
    · rw [hnone]
      rfl
    · rw [hnone]
      rfl
    · rw [hget] at hlacks
      rcases hlacks with hlacks | hlacks | hlacks <;> cases hlacks
      rw [hparams]
      rfl
  rw [← Relation.givenParams_isNone] at hempty
  exact Option.isNone_iff_eq_none.mp hempty

end Document

/-! ### Once for each relation -/

/-- The issue says that parameters are missing from the relation at a place. -/
def Issue.isMissingParams (relation : Location) (issue : Issue) : Bool :=
  issue.code = "MISSING_PARAMS" ∧ issue.path = (Location.key relation "params").text

/-- There is a relation at the place, and it gives no parameters. -/
def Json.LacksParamsAt (input : Json) (place : Location) : Prop :=
  ∃ relation, input.at? place = some relation ∧ relation.LacksParams

section Once
variable {input : Json} {doc : Document}

/-- What is pointed out is a relation without parameters. -/
theorem lacksParamsAt_of_isMissingParams {catalog : Catalog} {i : Nat} {issue : Issue}
    (h : Document.IsDocument input doc)
    (hissue : issue ∈ (Review.ofModel doc.model catalog).warnings)
    (hmissing : issue.isMissingParams (doc.model.relationAt i) = true) :
    ∃ r, doc.model.relations[i]? = some r ∧ input.LacksParamsAt (doc.model.relationAt i) ∧
      issue = missingParamsIssue (doc.model.relationAt i).text r.id := by
  obtain ⟨hcode, hpath⟩ := of_decide_eq_true hmissing
  obtain ⟨j, r, hr, hnone, rfl⟩ := Review.missingParams_of_code catalog hissue hcode
  have hindex : j = i := Location.indexText_right_inj (Location.keyText_left_inj hpath)
  subst hindex
  obtain ⟨json, hjson, hwritten⟩ := h.written_at hr
  exact ⟨r, hr, ⟨json, hjson, hwritten.lacksParams_iff.mpr hnone⟩, rfl⟩

/-- **Missing parameters are pointed out once for each relation that has none.** The warnings on
a document, whether or not there are errors too, are those of the review of its model, and what
the document itself shows of missing parameters is what the review says of them, no less and no
more. There is exactly one warning on the parameters of a relation that gives none, that is, whose
parameters are absent, `null` or empty, and there is none on those of any other. -/
theorem missingParams_exact (catalog : Catalog) (hcheck : Document.check input = .ok doc) :
    (compile catalog input).warnings = (Review.ofModel doc.model catalog).warnings ∧
      Issue.sort doc.missingParamsIssues =
        (Review.ofModel doc.model catalog).warnings.filter (·.code = "MISSING_PARAMS") ∧
      (∀ i, input.LacksParamsAt (doc.model.relationAt i) →
        (compile catalog input).warnings.countP
          (Issue.isMissingParams (doc.model.relationAt i)) = 1) ∧
      (∀ i, ¬ input.LacksParamsAt (doc.model.relationAt i) →
        (compile catalog input).warnings.countP
          (Issue.isMissingParams (doc.model.relationAt i)) = 0) ∧
      ∀ issue ∈ (compile catalog input).warnings, issue.code = "MISSING_PARAMS" →
        ∃ i, issue.isMissingParams (doc.model.relationAt i) = true := by
  have hdoc := (Document.check_eq_ok_iff input doc).mp hcheck
  have hwarnings := (compile_warnings catalog hcheck).trans (doc.warnings_eq_review catalog)
  rw [hwarnings]
  refine ⟨rfl, doc.sort_missingParamsIssues catalog, fun i hlacks => ?_, fun i hgives => ?_,
    fun issue hissue hcode => ?_⟩
  · obtain ⟨json, hjson, hlacks⟩ := hlacks
    obtain ⟨r, hr, hwritten⟩ := hdoc.relation_at hjson
    have hmem := Review.mem_warnings_of_missingParams catalog doc.model_keepsApart hr
      (hwritten.lacksParams_iff.mp hlacks)
    have honly : ∀ issue ∈ (Review.ofModel doc.model catalog).warnings,
        issue.isMissingParams (doc.model.relationAt i) = true ↔
          (issue == missingParamsIssue (doc.model.relationAt i).text r.id) = true := by
      intro issue hissue
      rw [beq_iff_eq]
      constructor
      · intro hmissing
        obtain ⟨s, hs, -, hsame⟩ := lacksParamsAt_of_isMissingParams hdoc hissue hmissing
        rw [hr] at hs
        rw [hsame, Option.some.inj hs]
      · intro hsame
        rw [hsame]
        exact decide_eq_true ⟨rfl, rfl⟩
    rw [List.countP_congr honly]
    exact List.count_eq_one_of_mem (doc.review_warnings_ordered catalog).distinct hmem
  · refine List.countP_eq_zero.mpr fun issue hissue hmissing => hgives ?_
    obtain ⟨-, -, hlacks, -⟩ := lacksParamsAt_of_isMissingParams hdoc hissue hmissing
    exact hlacks
  · obtain ⟨i, r, -, -, rfl⟩ := Review.missingParams_of_code catalog hissue hcode
    exact ⟨i, decide_eq_true ⟨rfl, rfl⟩⟩

end Once

/-- A pattern with an operator that is not known and with three relations of one id, of which the
first gives no parameters, the second an empty object and the third a value. -/
def sparsePattern : Json :=
  let interval (id : String) : Json :=
    .object [("end", .number (.ofUInt64 1)), ("id", .string id),
      ("predicate", .object [("name", .string "p")]), ("start", .number (.ofUInt64 0))]
  let relation (operator : String) (params : Json.Fields) : Json :=
    .object ([("id", .string "r"), ("left", .string "a"), ("operatorId", .string operator)] ++
      params ++ [("right", .string "b")])
  .object [("id", .string "m"), ("intervals", .array [interval "a", interval "b"]),
    ("meta", .object [("name", .string "Sparse")]),
    ("relations", .array [relation "Nope" [], relation "Bef" [("params", .object [])],
      relation "Bef" [("params", .object [("zeta", .string "<")])]]),
    ("schemaVersion", .string "1.0")]

theorem sparsePattern_missingParams :
    ∃ doc, Document.check sparsePattern = .ok doc ∧
      (compile .embedded sparsePattern).errors.length = 1 ∧
      (compile .embedded sparsePattern).warnings = (Review.ofModel doc.model .embedded).warnings ∧
      Issue.sort doc.missingParamsIssues =
        (compile .embedded sparsePattern).warnings.filter (·.code = "MISSING_PARAMS") ∧
      [0, 1, 2].map (fun i => (compile .embedded sparsePattern).warnings.countP
        (Issue.isMissingParams (doc.model.relationAt i))) = [1, 1, 0] := by
  have hversion : (Document.check sparsePattern).toOption.any (fun doc =>
      doc.version = Document.canonicalVersion) := by decide +kernel
  cases hcheck : Document.check sparsePattern with
  | error issues =>
    rw [hcheck] at hversion
    cases hversion
  | ok doc =>
    rw [hcheck] at hversion
    cases doc with
    | legacy d =>
      have hsame : Document.legacyVersion = Document.canonicalVersion := of_decide_eq_true hversion
      exact absurd hsame (by decide)
    | canonical d =>
      obtain ⟨hreview, hshown, honce, hnone, -⟩ := missingParams_exact .embedded hcheck
      have hfirst := honce 0 ⟨_, rfl, .inl rfl⟩
      have hsecond := honce 1 ⟨_, rfl, .inr (.inr rfl)⟩
      have hthird := hnone 2 fun hlacks => by
        obtain ⟨relation, hrelation, hlacks⟩ := hlacks
        cases hrelation
        rcases hlacks with hlacks | hlacks | hlacks <;> cases hlacks
      refine ⟨_, rfl, by decide +kernel, hreview, hreview ▸ hshown, ?_⟩
      rw [List.map_cons, List.map_cons, List.map_cons, List.map_nil, hfirst, hsecond, hthird]

end EventPattern
