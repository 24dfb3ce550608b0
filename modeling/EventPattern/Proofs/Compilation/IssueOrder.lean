import EventPattern.Catalog.Embedded
import EventPattern.Proofs.Compilation.Acceptance
import EventPattern.Proofs.Document.Distinct
import EventPattern.Proofs.Review.Repetition

/-! The issues of a compilation in order.

Of the errors and the warnings of a compilation, each list is in strictly ascending order
(`issues_ascending`). A warning is kept once as it is taken in, but an error is not looked for
among those that are already there. That no error comes twice rests on the stages: the check of a
document finds nothing twice (`Document.nodup_of_check`), nor does the review of its model
(`Review.nodup_errors`), and where one of them has errors the compilation ends. -/
namespace EventPattern

theorem Document.severity_of_warnings (doc : Document) (catalog : Catalog) :
    ∀ issue ∈ doc.warnings catalog, issue.severity = .warning := by
  intro issue hissue
  simp only [warnings, Issue.mem_sort, Issue.mem_distinct, List.mem_append] at hissue
  rcases hissue with hmissing | hreview
  · exact doc.severity_of_missingParams issue hmissing
  · exact Review.warnings_severity doc.model catalog issue hreview

theorem Document.warnings_ordered (doc : Document) (catalog : Catalog) :
    Issue.Ordered .warning (doc.warnings catalog) := by
  refine Issue.ordered_sort (fun issue hissue => ?_) (Issue.nodup_distinct _)
  exact doc.severity_of_warnings catalog issue (Issue.mem_sort.mpr hissue)

theorem Document.model_keepsApart (doc : Document) : doc.model.origin.KeepsApart :=
  doc.origin_model ▸ doc.keepsApart

theorem Document.model_namesOperator (doc : Document) :
    Relation.Part.NamesOperator doc.model.origin :=
  doc.origin_model ▸ doc.namesOperator

theorem Document.errors_ordered {input : Json} {doc : Document}
    (h : Document.check input = .ok doc) (catalog : Catalog) :
    Issue.Ordered .error (Review.ofModel doc.model catalog).errors := by
  have hproper := Document.proper_of_check h
  have hends : ∀ r ∈ doc.model.relations, r.left ∈ doc.model.intervals.map (·.id) ∧
      r.right ∈ doc.model.intervals.map (·.id) := fun r hr =>
    ⟨(hproper.relation r hr).left.2, (hproper.relation r hr).right.2⟩
  exact ⟨Review.errors_severity doc.model catalog,
    Review.nodup_errors catalog doc.model_namesOperator hends, Issue.sort_sort _⟩

/-- Errors and warnings are there once each, in order. -/
theorem compile_ordered (catalog : Catalog) {input : Json} (hinput : input.keysOnce = true) :
    Issue.Ordered .error (compile catalog input).errors ∧
      Issue.Ordered .warning (compile catalog input).warnings := by
  cases hcheck : Document.check input with
  | error issues =>
    obtain ⟨-, hseverity, hsorted⟩ := Document.issues_of_check hcheck
    rw [compile_of_error catalog hcheck]
    exact ⟨⟨hseverity, Document.nodup_of_check hinput hcheck, hsorted⟩, Issue.ordered_nil⟩
  | ok doc =>
    by_cases hsound : (Review.ofModel doc.model catalog).errors = []
    · rw [compile_of_sound catalog hcheck hsound]
      exact ⟨Issue.ordered_nil, doc.warnings_ordered catalog⟩
    · rw [compile_of_faults catalog hcheck hsound]
      exact ⟨Document.errors_ordered hcheck catalog, doc.warnings_ordered catalog⟩

/-- **Issues ascend strictly.** The errors of a compilation, and likewise its warnings, are in
strictly ascending order of the bytes of path, code and message. So no issue is reported
twice. What is read from text has each key once, as is asked for here
(`Json.keysOnce_of_ofText?`). -/
theorem issues_ascending (catalog : Catalog) (input : Json) (hinput : input.keysOnce = true) :
    (compile catalog input).errors.Pairwise Issue.Precedes ∧
      (compile catalog input).warnings.Pairwise Issue.Precedes ∧
      ((compile catalog input).errors ++ (compile catalog input).warnings).Nodup := by
  obtain ⟨herrors, hwarnings⟩ := compile_ordered catalog hinput
  refine ⟨herrors.pairwise_precedes, hwarnings.pairwise_precedes,
    herrors.distinct.append hwarnings.distinct fun issue herror hwarning => ?_⟩
  have hseverity := herrors.all issue herror
  rw [hwarnings.all issue hwarning] at hseverity
  cases hseverity

/-- A pattern whose unknown fields all have the same path. -/
def crowdedPattern : Json :=
  .object [("id", .string "m"), ("intervals", .array [
      .object [("end", .number (.ofUInt64 1)), ("id", .string "a"),
        ("predicate", .object [("name", .string "p"), ("x", .null)]), ("predicate.x", .null),
        ("start", .number (.ofUInt64 0))]]),
    ("intervals[0].predicate.x", .null), ("name", .string "Crowded"),
    ("schemaVersion", .string "1")]

theorem crowdedPattern_issues_ascending :
    crowdedPattern.keysOnce = true ∧
      (compile .embedded crowdedPattern).errors.map Issue.path =
        List.replicate 3 "$.intervals[0].predicate.x" ∧
      (compile .embedded crowdedPattern).errors.Pairwise Issue.Precedes ∧
      ((compile .embedded crowdedPattern).errors ++
        (compile .embedded crowdedPattern).warnings).Nodup := by
  have hkeys : crowdedPattern.keysOnce = true := by decide +kernel
  obtain ⟨herrors, -, hdistinct⟩ := issues_ascending .embedded crowdedPattern hkeys
  exact ⟨hkeys, by decide +kernel, herrors, hdistinct⟩

end EventPattern
