import EventPattern.Proofs.Compilation.Stage
import EventPattern.Proofs.Document.Gathering
import EventPattern.Proofs.Issue
import EventPattern.Proofs.Review.Advice

/-! What comes of a compilation.

There are three ways a compilation can go, and each is described as a whole: the document has
issues (`compile_of_error`), its model has faults (`compile_of_faults`), or neither, and then
the resolved model and its text come out (`compile_of_sound`). Everything that is said of an
output elsewhere rests on these three and never runs the stages again. -/
namespace EventPattern

/-! ### The issues of the stages -/

/-- The issues of a document: at least one, all of them errors, in order. -/
theorem Document.issues_of_check {input : Json} {issues : List Issue}
    (h : Document.check input = .error issues) :
    issues ≠ [] ∧ (∀ i ∈ issues, i.severity = .error) ∧ Issue.sort issues = issues := by
  unfold Document.check at h
  split at h
  · cases h
  · next first more _ =>
    cases h
    refine ⟨fun hnil => ?_, fun i hi => ?_, Issue.sort_sort _⟩
    · have hlength := congrArg List.length hnil
      rw [Issue.sort, length_sortOn] at hlength
      cases hlength
    · have hi := Issue.mem_sort.mp hi
      obtain ⟨finding, -, rfl⟩ := List.mem_map.mp hi
      rfl

theorem Document.severity_of_missingParams (doc : Document) :
    ∀ i ∈ doc.missingParamsIssues, i.severity = .warning := by
  intro i hi
  obtain ⟨⟨⟨id, params⟩, k⟩, -, hissue⟩ := List.mem_filterMap.mp hi
  dsimp only at hissue
  split at hissue
  · cases hissue
    rfl
  · cases hissue

theorem Document.relationParams_eq (doc : Document) :
    doc.relationParams = doc.model.relations.map fun r => (r.id, r.params) := by
  cases doc with
  | legacy d =>
    show d.relations.map _ = (d.relations.map LegacyRelation.relation).map _
    rw [List.map_map]
    rfl
  | canonical d => rfl

theorem Document.origin_model (doc : Document) : doc.model.origin = doc.origin := by
  cases doc <;> rfl

theorem Relation.givenParams_isNone (r : Relation (Option AuthoredParams)) :
    r.givenParams.isNone = r.params.all AuthoredParams.isEmpty := by
  unfold givenParams
  cases r.params with
  | none => rfl
  | some params => cases hempty : params.isEmpty <;> simp [Option.filter, hempty]

/-- What a document shows of missing parameters is seen of its model. -/
theorem Document.missingParamsIssues_eq (doc : Document) :
    doc.missingParamsIssues = doc.model.relations.zipIdx.filterMap fun entry =>
      if entry.1.givenParams.isNone then
        some (missingParamsIssue (doc.model.relationAt entry.2).text entry.1.id)
      else none := by
  unfold missingParamsIssues
  rw [relationParams_eq, List.zipIdx_map, List.filterMap_map]
  simp only [Relation.givenParams_isNone, Model.relationAt, origin_model]
  rfl

/-- The warnings on a document that passes the check. -/
def Document.warnings (doc : Document) (catalog : Catalog) : List Issue :=
  Issue.sort (Issue.distinct (Issue.sort (Issue.distinct doc.missingParamsIssues) ++
    (Review.ofModel doc.model catalog).warnings))

namespace Compilation

/-- Nothing to report changes nothing. -/
theorem collect_nil {c : Compilation} (herrors : c.errors = [])
    (hwarnings : Issue.sort (Issue.distinct c.warnings) = c.warnings) : c.collect [] = c := by
  have hsame : Issue.sort (c.errors ++ []) = c.errors := by
    rw [herrors]
    rfl
  have hkept : Issue.sort (Issue.distinct (c.warnings ++ [])) = c.warnings := by
    rw [List.append_nil, hwarnings]
  show { c with
    errors := Issue.sort (c.errors ++ [])
    warnings := Issue.sort (Issue.distinct (c.warnings ++ []))
    hasError := c.hasError || false } = c
  rw [hsame, hkept, Bool.or_false]

/-- Warnings are taken in, and the run goes on. -/
theorem collect_warnings {c : Compilation} {issues : List Issue} (herrors : c.errors = [])
    (h : ∀ i ∈ issues, i.severity = .warning) :
    c.collect issues =
      { c with warnings := Issue.sort (Issue.distinct (c.warnings ++ issues)) } := by
  obtain ⟨hnone, hall⟩ := Issue.filter_isError_warnings h
  have hsame : Issue.sort (c.errors ++ []) = c.errors := by
    rw [herrors]
    rfl
  unfold collect
  rw [hnone, hall, Issue.anyError_eq_false h, hsame, Bool.or_false]

/-! ### Stage by stage -/

variable {c next : Compilation} {stage : Stage} {rest : List Stage} {issues : List Issue}

theorem runStages_pass (h : c.perform stage = some (next, issues))
    (hclear : Issue.anyError issues = false) :
    (c.runStages (stage :: rest)).compilation =
      ((next.collect issues).runStages rest).compilation := by
  rw [runStages, h]
  simp only [hclear, Bool.false_eq_true, if_false]

theorem runStages_stop (h : c.perform stage = some (next, issues))
    (hany : Issue.anyError issues = true) :
    (c.runStages (stage :: rest)).compilation = next.collect issues := by
  rw [runStages, h]
  simp only [hany, if_true]

variable (catalog : Catalog) {input : Json} {doc : Document}

/-- Where a compilation stands once its document is checked and its model is there. -/
def adapted (input : Json) (doc : Document) : Compilation :=
  { input, catalog, document := some doc, model := some doc.model
    warnings := Issue.sort (Issue.distinct doc.missingParamsIssues) }

theorem run_adapted (h : Document.check input = .ok doc) :
    (run { input, catalog } .render).compilation =
      ((adapted catalog input doc).runStages [.review, .resolve, .render]).compilation := by
  have hcheck : perform { input, catalog } .check =
      some ({ input, catalog, document := some doc }, []) := by
    simp only [perform, h]
  have hmissing := Document.severity_of_missingParams doc
  rw [run, Stage.required_render, runStages_pass hcheck rfl, collect_nil rfl rfl,
    runStages_pass rfl (Issue.anyError_eq_false hmissing), collect_warnings rfl hmissing]
  rfl

end Compilation

/-! ### The three ways -/

variable (catalog : Catalog) {input : Json} {doc : Document}

open Compilation

/-- A document with issues gives these and nothing else. -/
theorem compile_of_error {issues : List Issue} (h : Document.check input = .error issues) :
    compile catalog input = { errors := issues, warnings := [] } := by
  obtain ⟨hne, herrors, hsorted⟩ := Document.issues_of_check h
  obtain ⟨first, hfirst⟩ := List.exists_mem_of_ne_nil issues hne
  have hany := Issue.anyError_eq_true hfirst (herrors first hfirst)
  obtain ⟨hall, hnone⟩ := Issue.filter_isError_errors herrors
  have hcheck : perform { input, catalog } .check = some ({ input, catalog }, issues) := by
    simp only [perform, h]
  rw [compile, run, Stage.required_render, runStages_stop hcheck hany, collect, hall, hnone, hany]
  simp only [List.nil_append, hsorted, Bool.or_true, output, if_true]
  rfl

/-- A model with faults gives these and the warnings. -/
theorem compile_of_faults (h : Document.check input = .ok doc)
    (hfaults : (Review.ofModel doc.model catalog).errors ≠ []) :
    compile catalog input =
      { errors := (Review.ofModel doc.model catalog).errors
        warnings := doc.warnings catalog } := by
  have herrors := Review.errors_severity doc.model catalog
  have hwarnings := Review.warnings_severity doc.model catalog
  obtain ⟨first, hfirst⟩ := List.exists_mem_of_ne_nil _ hfaults
  have hany := Issue.anyError_eq_true (List.mem_append_left
    (Review.ofModel doc.model catalog).warnings hfirst) (herrors first hfirst)
  have hsorted : Issue.sort (Review.ofModel doc.model catalog).errors =
      (Review.ofModel doc.model catalog).errors := Issue.sort_sort _
  rw [compile, run_adapted catalog h, runStages_stop rfl hany, collect, hany]
  simp only [List.filter_append, (Issue.filter_isError_errors herrors).1,
    (Issue.filter_isError_errors herrors).2, (Issue.filter_isError_warnings hwarnings).1,
    (Issue.filter_isError_warnings hwarnings).2, List.append_nil, List.nil_append,
    Bool.or_true, output, if_true, adapted, hsorted]
  rfl

/-- A model without faults gives its resolved form, the text of it, the trail and the
warnings. -/
theorem compile_of_sound (h : Document.check input = .ok doc)
    (hsound : (Review.ofModel doc.model catalog).errors = []) :
    compile catalog input =
      { artifact := some (Iseql.text (doc.model.resolve catalog) catalog)
        resolved := some (doc.model.resolve catalog)
        trail := doc.model.trail catalog
        errors := []
        warnings := doc.warnings catalog } := by
  have hwarnings := Review.warnings_severity doc.model catalog
  have hreview : perform (adapted catalog input doc) .review =
      some (adapted catalog input doc, (Review.ofModel doc.model catalog).warnings) := by
    show some (_, (Review.ofModel doc.model catalog).errors ++ _) = _
    rw [hsound]
    rfl
  have hkept := Issue.sort_distinct_sort (Issue.sort (Issue.distinct doc.missingParamsIssues) ++
    (Review.ofModel doc.model catalog).warnings)
  rw [compile, run_adapted catalog h, runStages_pass hreview (Issue.anyError_eq_false hwarnings),
    collect_warnings rfl hwarnings, runStages_pass rfl rfl, collect_nil rfl hkept,
    runStages_pass rfl rfl, collect_nil rfl hkept]
  rfl

/-- The warnings are the same with faults and without. -/
theorem compile_warnings (h : Document.check input = .ok doc) :
    (compile catalog input).warnings = doc.warnings catalog := by
  by_cases hsound : (Review.ofModel doc.model catalog).errors = []
  · rw [compile_of_sound catalog h hsound]
  · rw [compile_of_faults catalog h hsound]

end EventPattern
