import EventPattern.Catalog.Embedded
import EventPattern.Proofs.Compilation.Outcome

/-! Running a compilation goal by goal.

A compilation can be run to one goal and then to the next. Every run starts over from the input:
its stages do again what is done already (`redo`) and report again what they reported
(`reported`), and this does not depend on where the compilation stood (`run_eq`). What is done
again comes out the same. So do the warnings, of which each is kept once. But errors are taken in
as they are reported, so they pile up with every run that fails (`runAll_eq`). -/
namespace EventPattern

/-! ### Goals in sequence -/

namespace Stage

/-- The one of two stages that needs the other. -/
def later (a b : Stage) : Stage := if a ∈ b.required then b else a

def furthest (first : Stage) (rest : List Stage) : Stage := rest.foldl later first

theorem mem_required_later (a b : Stage) : a ∈ (later a b).required ∧ b ∈ (later a b).required := by
  cases a <;> cases b <;> decide

theorem later_eq (a b : Stage) : later a b = a ∨ later a b = b := by
  unfold later
  split
  · exact .inr rfl
  · exact .inl rfl

/-- Every goal of a sequence is on the way to the furthest one. -/
theorem mem_required_furthest {first stage : Stage} {rest : List Stage}
    (h : stage ∈ first :: rest) : stage ∈ (furthest first rest).required := by
  induction rest generalizing first stage with
  | nil =>
    rw [List.mem_singleton.mp h]
    exact mem_required_self first
  | cons next rest ih =>
    show stage ∈ (furthest (later first next) rest).required
    have hlater : later first next ∈ (furthest (later first next) rest).required :=
      ih List.mem_cons_self
    obtain ⟨hfirst, hnext⟩ := mem_required_later first next
    rcases List.mem_cons.mp h with rfl | h
    · exact mem_required_trans hfirst hlater
    · rcases List.mem_cons.mp h with rfl | h
      · exact mem_required_trans hnext hlater
      · exact ih (List.mem_cons_of_mem _ h)

theorem furthest_mem (first : Stage) (rest : List Stage) : furthest first rest ∈ first :: rest := by
  induction rest generalizing first with
  | nil => exact List.mem_cons_self
  | cons next rest ih =>
    show furthest (later first next) rest ∈ _
    rcases List.mem_cons.mp (ih (later first next)) with hlater | hrest
    · rw [hlater]
      rcases later_eq first next with h | h
      · rw [h]
        exact List.mem_cons_self
      · rw [h]
        exact List.mem_cons_of_mem _ List.mem_cons_self
    · exact List.mem_cons_of_mem _ (List.mem_cons_of_mem _ hrest)

end Stage

namespace Compilation

/-- One run after the other, each from where the last one left off. -/
def runAll (c : Compilation) (goals : List Stage) : Compilation :=
  goals.foldl (fun c goal => (c.run goal).compilation) c

/-! ### Taking in issues -/

/-- Errors and warnings are kept apart. -/
structure IsClean (c : Compilation) : Prop where
  errors : ∀ issue ∈ c.errors, issue.severity = .error
  warnings : ∀ issue ∈ c.warnings, issue.severity = .warning

theorem isClean_start (input : Json) (catalog : Catalog) : IsClean { input, catalog } :=
  ⟨fun _ h => absurd h List.not_mem_nil, fun _ h => absurd h List.not_mem_nil⟩

variable {c : Compilation}

/-- Taking in the issues of two stages is done in one go. -/
theorem collect_collect (h : c.IsClean) (a b : List Issue) :
    (c.collect a).collect b = c.collect (a ++ b) := by
  obtain ⟨ha, ha'⟩ := Issue.severity_of_filter a
  obtain ⟨hb, hb'⟩ := Issue.severity_of_filter b
  have herrors : Issue.sort (Issue.sort (c.errors ++ a.filter Issue.isError) ++
      b.filter Issue.isError) = Issue.sort (c.errors ++ (a ++ b).filter Issue.isError) := by
    rw [List.filter_append, ← List.append_assoc]
    exact Issue.sort_sort_append (List.forall_mem_append.mpr ⟨h.errors, ha⟩) hb
  have hwarnings : Issue.sort (Issue.distinct (Issue.sort (Issue.distinct (c.warnings ++
      a.filter (!·.isError))) ++ b.filter (!·.isError))) =
        Issue.sort (Issue.distinct (c.warnings ++ (a ++ b).filter (!·.isError))) := by
    rw [List.filter_append, ← List.append_assoc]
    refine (Issue.sort_distinct_eq (List.forall_mem_append.mpr
      ⟨List.forall_mem_append.mpr ⟨h.warnings, ha'⟩, hb'⟩) fun issue => ?_).symm
    simp only [List.mem_append, Issue.mem_sort, Issue.mem_distinct]
  have hany : (c.hasError || Issue.anyError a || Issue.anyError b) =
      (c.hasError || Issue.anyError (a ++ b)) := by
    rw [Issue.anyError, Issue.anyError, Issue.anyError, List.any_append, Bool.or_assoc]
  simp only [collect, herrors, hwarnings, hany]

/-! ### What a run does again -/

/-- How far the stages get: a model with faults gets no further than its review. -/
def reached (catalog : Catalog) (doc : Document) (goal : Stage) : Stage :=
  if (Review.ofModel doc.model catalog).errors.isEmpty then goal
  else if .review ∈ goal.required then .review
  else goal

/-- The products of a document up to a stage. -/
def produce (c : Compilation) (doc : Document) : Stage → Compilation
  | .check => { c with document := some doc }
  | .adapt | .review => { c with document := some doc, model := some doc.model }
  | .resolve =>
    { c with document := some doc, model := some doc.model
             resolved := some (doc.model.resolve c.catalog), trail := doc.model.trail c.catalog }
  | .render =>
    { c with document := some doc, model := some doc.model
             resolved := some (doc.model.resolve c.catalog), trail := doc.model.trail c.catalog
             iseql := some (Iseql.text (doc.model.resolve c.catalog) c.catalog) }

/-- What a run leaves besides issues, by what the check of the input says. -/
def redo (c : Compilation) (checked : Except (List Issue) Document) (goal : Stage) : Compilation :=
  match checked with
  | .error _ => { c with document := none }
  | .ok doc => c.produce doc (reached c.catalog doc goal)

/-- All issues that a run reports. -/
def reported (catalog : Catalog) (checked : Except (List Issue) Document) (goal : Stage) :
    List Issue :=
  match checked, goal with
  | .error issues, _ => issues
  | .ok _, .check => []
  | .ok doc, .adapt => doc.missingParamsIssues
  | .ok doc, _ =>
    doc.missingParamsIssues ++ ((Review.ofModel doc.model catalog).errors ++
      (Review.ofModel doc.model catalog).warnings)

/-- Stages do not see issues. -/
theorem perform_collect (c : Compilation) (issues : List Issue) (stage : Stage) :
    (c.collect issues).perform stage =
      (c.perform stage).map fun done => (done.1.collect issues, done.2) := by
  cases stage with
  | check =>
    have hinput : (c.collect issues).input = c.input := rfl
    simp only [perform, hinput]
    cases Document.check c.input <;> rfl
  | adapt | review | resolve | render =>
    simp only [perform, Option.map_map]
    rfl

section Runs
variable {next : Compilation} {issues said : List Issue} {stage : Stage} {rest : List Stage}

theorem runStages_collect_pass (hnext : next.IsClean) (h : c.perform stage = some (next, said))
    (hclear : Issue.anyError said = false) :
    ((c.collect issues).runStages (stage :: rest)).compilation =
      ((next.collect (issues ++ said)).runStages rest).compilation := by
  have hperform : (c.collect issues).perform stage = some (next.collect issues, said) := by
    rw [perform_collect, h]
    rfl
  rw [runStages_pass hperform hclear, collect_collect hnext]

theorem runStages_collect_stop (hnext : next.IsClean) (h : c.perform stage = some (next, said))
    (hany : Issue.anyError said = true) :
    ((c.collect issues).runStages (stage :: rest)).compilation =
      next.collect (issues ++ said) := by
  have hperform : (c.collect issues).perform stage = some (next.collect issues, said) := by
    rw [perform_collect, h]
    rfl
  rw [runStages_stop hperform hany, collect_collect hnext]

end Runs

theorem perform_check {doc : Document} (h : Document.check c.input = .ok doc) :
    c.perform .check = some (c.produce doc .check, []) := by
  simp only [perform, h]
  rfl

section Documents
variable {doc : Document} (hclean : c.IsClean) (hcheck : Document.check c.input = .ok doc)
include hclean

theorem IsClean.produce (doc : Document) (stage : Stage) : (c.produce doc stage).IsClean := by
  cases stage <;> exact ⟨hclean.errors, hclean.warnings⟩

include hcheck

/-- The first two stages, on the way to any others. -/
theorem run_adapted_eq {goal : Stage} {rest : List Stage}
    (hrequired : goal.required = .check :: .adapt :: rest) :
    (c.run goal).compilation =
      (((c.produce doc .adapt).collect doc.missingParamsIssues).runStages rest).compilation := by
  have hmissing := Issue.anyError_eq_false doc.severity_of_missingParams
  have hadapt : (c.produce doc .check).perform .adapt =
    some (c.produce doc .adapt, doc.missingParamsIssues) := rfl
  rw [run, hrequired, runStages_pass (perform_check hcheck) rfl,
    runStages_collect_pass (hclean.produce doc .adapt) hadapt hmissing, List.nil_append]

/-- Without faults, a run makes everything up to its goal. -/
theorem run_sound_eq (hsound : (Review.ofModel doc.model c.catalog).errors = []) (goal : Stage) :
    (c.run goal).compilation =
      (c.produce doc goal).collect (reported c.catalog (.ok doc) goal) := by
  have hclear : Issue.anyError ((Review.ofModel doc.model c.catalog).errors ++
      (Review.ofModel doc.model c.catalog).warnings) = false := by
    rw [hsound, List.nil_append]
    exact Issue.anyError_eq_false (Review.warnings_severity doc.model c.catalog)
  have hreviewed {goal : Stage} {rest : List Stage}
      (hrequired : goal.required = .check :: .adapt :: .review :: rest) :
      (c.run goal).compilation = (((c.produce doc .adapt).collect
        (reported c.catalog (.ok doc) .review)).runStages rest).compilation := by
    rw [run_adapted_eq hclean hcheck hrequired,
      runStages_collect_pass (hclean.produce doc .adapt) rfl hclear]
    rfl
  have hresolve : (c.produce doc .adapt).perform .resolve =
    some (c.produce doc .resolve, []) := rfl
  have hrender : (c.produce doc .resolve).perform .render =
    some (c.produce doc .render, []) := rfl
  cases goal with
  | check => exact runStages_pass (perform_check hcheck) rfl
  | adapt => exact run_adapted_eq hclean hcheck Stage.required_adapt
  | review => exact hreviewed Stage.required_review
  | resolve =>
    rw [hreviewed Stage.required_resolve,
      runStages_collect_pass (hclean.produce doc .resolve) hresolve rfl, List.append_nil]
    rfl
  | render =>
    rw [hreviewed Stage.required_render,
      runStages_collect_pass (hclean.produce doc .resolve) hresolve rfl, List.append_nil,
      runStages_collect_pass (hclean.produce doc .render) hrender rfl, List.append_nil]
    rfl

/-- With faults, a run ends with the review. -/
theorem run_faults_eq (hfaults : (Review.ofModel doc.model c.catalog).errors ≠ [])
    (goal : Stage) :
    (c.run goal).compilation =
      (c.produce doc (if .review ∈ goal.required then .review else goal)).collect
        (reported c.catalog (.ok doc) goal) := by
  obtain ⟨first, hfirst⟩ := List.exists_mem_of_ne_nil _ hfaults
  have hany := Issue.anyError_eq_true (List.mem_append_left
    (Review.ofModel doc.model c.catalog).warnings hfirst)
    (Review.errors_severity doc.model c.catalog first hfirst)
  have hreviewed {goal : Stage} {rest : List Stage}
      (hrequired : goal.required = .check :: .adapt :: .review :: rest) :
      (c.run goal).compilation = (c.produce doc .adapt).collect
        (reported c.catalog (.ok doc) .review) := by
    rw [run_adapted_eq hclean hcheck hrequired,
      runStages_collect_stop (hclean.produce doc .adapt) rfl hany]
    rfl
  cases goal with
  | check => exact runStages_pass (perform_check hcheck) rfl
  | adapt => exact run_adapted_eq hclean hcheck Stage.required_adapt
  | review => exact hreviewed Stage.required_review
  | resolve => exact hreviewed Stage.required_resolve
  | render => exact hreviewed Stage.required_render

end Documents

/-- **A run does the same wherever the compilation stood.** -/
theorem run_eq (hclean : c.IsClean) (goal : Stage) :
    (c.run goal).compilation = (c.redo (Document.check c.input) goal).collect
      (reported c.catalog (Document.check c.input) goal) := by
  cases hcheck : Document.check c.input with
  | error issues =>
    have hrequired : ∃ rest, goal.required = .check :: rest := by
      cases goal <;> exact ⟨_, rfl⟩
    obtain ⟨rest, hrest⟩ := hrequired
    obtain ⟨hne, herrors, -⟩ := Document.issues_of_check hcheck
    obtain ⟨first, hfirst⟩ := List.exists_mem_of_ne_nil issues hne
    have hany := Issue.anyError_eq_true hfirst (herrors first hfirst)
    have hperform : c.perform .check = some ({ c with document := none }, issues) := by
      simp only [perform, hcheck]
    rw [run, hrest, runStages_stop hperform hany]
    rfl
  | ok doc =>
    rw [redo, reached]
    by_cases hsound : (Review.ofModel doc.model c.catalog).errors = []
    · rw [run_sound_eq hclean hcheck hsound, if_pos (List.isEmpty_iff.mpr hsound)]
    · rw [run_faults_eq hclean hcheck hsound, if_neg (mt List.isEmpty_iff.mp hsound)]

/-! ### Several runs -/

theorem IsClean.collect (h : c.IsClean) (issues : List Issue) : (c.collect issues).IsClean := by
  obtain ⟨herrors, hwarnings⟩ := Issue.severity_of_filter issues
  constructor
  · intro issue hissue
    rcases List.mem_append.mp (Issue.mem_sort.mp hissue) with hissue | hissue
    · exact h.errors issue hissue
    · exact herrors issue hissue
  · intro issue hissue
    rcases List.mem_append.mp (Issue.mem_distinct.mp (Issue.mem_sort.mp hissue)) with
      hissue | hissue
    · exact h.warnings issue hissue
    · exact hwarnings issue hissue

theorem IsClean.redo (h : c.IsClean) (checked : Except (List Issue) Document) (goal : Stage) :
    (c.redo checked goal).IsClean := by
  cases checked with
  | error issues => exact ⟨h.errors, h.warnings⟩
  | ok doc => exact h.produce doc _

theorem input_redo (c : Compilation) (checked : Except (List Issue) Document) (goal : Stage) :
    (c.redo checked goal).input = c.input ∧ (c.redo checked goal).catalog = c.catalog := by
  cases checked with
  | error issues => exact ⟨rfl, rfl⟩
  | ok doc =>
    rw [redo]
    cases reached c.catalog doc goal <;> exact ⟨rfl, rfl⟩

theorem redo_collect (c : Compilation) (issues : List Issue)
    (checked : Except (List Issue) Document) (goal : Stage) :
    (c.collect issues).redo checked goal = (c.redo checked goal).collect issues := by
  cases checked with
  | error issues => rfl
  | ok doc =>
    show (c.collect issues).produce doc (reached c.catalog doc goal) = _
    rw [redo]
    cases reached c.catalog doc goal <;> rfl

/-- What is done again comes out the same. -/
theorem redo_redo (c : Compilation) (checked : Except (List Issue) Document) (a b : Stage) :
    (c.redo checked a).redo checked b = c.redo checked (.later a b) := by
  cases checked with
  | error issues => rfl
  | ok doc =>
    have hproduce (a b : Stage) : (c.produce doc a).produce doc b = c.produce doc (.later a b) := by
      cases a <;> cases b <;> rfl
    have hreached : reached c.catalog doc (.later a b) =
        .later (reached c.catalog doc a) (reached c.catalog doc b) := by
      unfold reached
      cases (Review.ofModel doc.model c.catalog).errors.isEmpty <;>
        cases a <;> cases b <;> decide
    show (c.redo (.ok doc) a).produce doc (reached (c.redo (.ok doc) a).catalog doc b) = _
    rw [(input_redo c (.ok doc) a).2, redo, redo, hproduce, hreached]

theorem runAll_redo (hclean : c.IsClean) (goal : Stage) (issues : List Issue)
    (goals : List Stage) :
    ((c.redo (Document.check c.input) goal).collect issues).runAll goals =
      (c.redo (Document.check c.input) (Stage.furthest goal goals)).collect
        (issues ++ goals.flatMap (reported c.catalog (Document.check c.input))) := by
  induction goals generalizing goal issues with
  | nil =>
    rw [List.flatMap_nil, List.append_nil]
    rfl
  | cons next rest ih =>
    obtain ⟨hinput, hcatalog⟩ := input_redo c (Document.check c.input) goal
    have hredone := hclean.redo (Document.check c.input) goal
    have hrun := run_eq (hredone.collect issues) next
    rw [show ((c.redo (Document.check c.input) goal).collect issues).input = c.input from hinput,
      show ((c.redo (Document.check c.input) goal).collect issues).catalog = c.catalog
        from hcatalog, redo_collect, redo_redo,
      collect_collect (hclean.redo (Document.check c.input) _)] at hrun
    show ((((c.redo _ goal).collect issues).run next).compilation).runAll rest = _
    rw [hrun, ih, List.flatMap_cons, List.append_assoc]
    rfl

/-! ### What the runs report -/

section Reports
variable {catalog : Catalog} {checked : Except (List Issue) Document} {a b : Stage}

/-- On the way to a goal there is nothing reported that the goal does not report too. -/
theorem reported_subset (h : a ∈ b.required) :
    reported catalog checked a ⊆ reported catalog checked b := by
  cases checked with
  | error issues => exact List.Subset.refl _
  | ok doc =>
    revert h
    cases a <;> cases b <;> intro h <;> first
      | exact List.nil_subset _
      | exact List.Subset.refl _
      | exact List.subset_append_left _ _
      | exact absurd h (by decide)

/-- A run that fails reports all that a further one does. -/
theorem reported_of_anyError (h : a ∈ b.required)
    (hany : Issue.anyError (reported catalog checked a) = true) :
    reported catalog checked a = reported catalog checked b := by
  cases checked with
  | error issues => rfl
  | ok doc =>
    have hmissing := Issue.anyError_eq_false doc.severity_of_missingParams
    revert h hany
    cases a <;> cases b <;> intro h hany <;> first
      | rfl
      | cases hany
      | exact absurd (hmissing.symm.trans hany) (by decide)
      | exact absurd h (by decide)

variable {goals : List Stage}

/-- The errors of several runs are those of the furthest, as often as there are runs that
fail. -/
theorem filter_reports (h : ∀ goal ∈ goals, goal ∈ b.required) :
    (goals.flatMap (reported catalog checked)).filter Issue.isError =
      (List.replicate (goals.countP fun goal => Issue.anyError (reported catalog checked goal))
        ((reported catalog checked b).filter Issue.isError)).flatten := by
  induction goals with
  | nil => rfl
  | cons goal rest ih =>
    obtain ⟨hgoal, hrest⟩ := List.forall_mem_cons.mp h
    rw [List.flatMap_cons, List.filter_append, ih hrest, List.countP_cons]
    by_cases hany : Issue.anyError (reported catalog checked goal) = true
    · rw [if_pos hany, reported_of_anyError hgoal hany, List.replicate_succ, List.flatten_cons]
    · have hnone : (reported catalog checked goal).filter Issue.isError = [] :=
        not_not.mp (mt Issue.anyError_iff.mpr hany)
      rw [if_neg hany, hnone, List.nil_append, Nat.add_zero]

/-- What is reported at all is reported by the furthest run. -/
theorem mem_reports (h : ∀ goal ∈ goals, goal ∈ b.required) (hb : b ∈ goals) (issue : Issue) :
    issue ∈ goals.flatMap (reported catalog checked) ↔ issue ∈ reported catalog checked b := by
  rw [List.mem_flatMap]
  constructor
  · intro hissue
    obtain ⟨goal, hgoal, hissue⟩ := hissue
    exact reported_subset (h goal hgoal) hissue
  · intro hissue
    exact ⟨b, hb, hissue⟩

/-- Taken in, several reports come to that of the furthest run, but for the errors. -/
theorem collect_reports (hclean : c.IsClean) (h : ∀ goal ∈ goals, goal ∈ b.required)
    (hb : b ∈ goals) :
    c.collect (goals.flatMap (reported catalog checked)) =
      { c.collect (reported catalog checked b) with
        errors := Issue.sort (c.errors ++ (List.replicate
          (goals.countP fun goal => Issue.anyError (reported catalog checked goal))
          ((reported catalog checked b).filter Issue.isError)).flatten) } := by
  have hmembers (keep : Issue → Bool) (issue : Issue) :
      issue ∈ (goals.flatMap (reported catalog checked)).filter keep ↔
        issue ∈ (reported catalog checked b).filter keep := by
    rw [List.mem_filter, List.mem_filter, mem_reports h hb]
  have hany : Issue.anyError (goals.flatMap (reported catalog checked)) =
      Issue.anyError (reported catalog checked b) := by
    rw [Bool.eq_iff_iff, Issue.anyError, Issue.anyError, List.any_eq_true, List.any_eq_true]
    exact exists_congr fun issue => and_congr_left fun _ => mem_reports h hb issue
  have hwarnings : Issue.sort (Issue.distinct (c.warnings ++
      (goals.flatMap (reported catalog checked)).filter (!·.isError))) =
        Issue.sort (Issue.distinct (c.warnings ++
          (reported catalog checked b).filter (!·.isError))) := by
    refine Issue.sort_distinct_eq (List.forall_mem_append.mpr
      ⟨hclean.warnings, (Issue.severity_of_filter _).2⟩) fun issue => ?_
    rw [List.mem_append, List.mem_append, hmembers]
  simp only [collect, hany, hwarnings, filter_reports h]

end Reports

theorem issues_redo (c : Compilation) (checked : Except (List Issue) Document) (goal : Stage) :
    (c.redo checked goal).errors = c.errors ∧ (c.redo checked goal).warnings = c.warnings ∧
      (c.redo checked goal).hasError = c.hasError := by
  cases checked with
  | error issues => exact ⟨rfl, rfl, rfl⟩
  | ok doc =>
    rw [redo]
    cases reached c.catalog doc goal <;> exact ⟨rfl, rfl, rfl⟩

section Single
variable (input : Json) (catalog : Catalog) (goal : Stage)

theorem run_start : (run { input, catalog } goal).compilation =
    (redo { input, catalog } (Document.check input) goal).collect
      (reported catalog (Document.check input) goal) :=
  run_eq (isClean_start input catalog) goal

theorem run_start_errors : (run { input, catalog } goal).compilation.errors =
    Issue.sort ((reported catalog (Document.check input) goal).filter Issue.isError) := by
  rw [run_start]
  show Issue.sort ((redo _ _ goal).errors ++ _) = _
  rw [(issues_redo _ _ goal).1, List.nil_append]

theorem run_start_hasError : (run { input, catalog } goal).compilation.hasError =
    Issue.anyError (reported catalog (Document.check input) goal) := by
  rw [run_start]
  show ((redo _ _ goal).hasError || _) = _
  rw [(issues_redo _ _ goal).2.2, Bool.false_or]

end Single

/-- The compilation with every error there as often as asked for. -/
def repeatErrors (c : Compilation) (times : Nat) : Compilation :=
  { c with errors := Issue.sort (List.replicate times c.errors).flatten }

theorem repeatErrors_eq_iff {times : Nat} (h : Issue.sort c.errors = c.errors) :
    c.repeatErrors times = c ↔ c.errors = [] ∨ times = 1 := by
  rw [← Issue.sort_flatten_replicate_eq h]
  constructor
  · intro hsame
    exact congrArg Compilation.errors hsame
  · intro hsame
    rw [repeatErrors, hsame]

section Staged
variable (input : Json) (catalog : Catalog) (first : Stage) (rest : List Stage)

/-- What a single run leaves that goes to the furthest of several goals. -/
def runFurthest : Compilation :=
  (run { input, catalog } (Stage.furthest first rest)).compilation

/-- How many of the runs to the goals of a sequence fail. -/
def failures (goals : List Stage) : Nat :=
  goals.countP fun goal => (run { input, catalog } goal).compilation.hasError

theorem runAll_start : runAll { input, catalog } (first :: rest) =
    (redo { input, catalog } (Document.check input) (Stage.furthest first rest)).collect
      ((first :: rest).flatMap (reported catalog (Document.check input))) := by
  show (run { input, catalog } first).compilation.runAll rest = _
  rw [run_start, runAll_redo (isClean_start input catalog), List.flatMap_cons]

/-- A single run has errors when any of the others fails. -/
theorem failures_eq_zero_iff : failures input catalog (first :: rest) = 0 ↔
    (runFurthest input catalog first rest).errors = [] := by
  rw [failures, runFurthest, List.countP_eq_zero, run_start_errors, Issue.sort_eq_nil]
  simp only [run_start_hasError]
  constructor
  · intro h
    have hclear := h _ (Stage.furthest_mem first rest)
    exact not_not.mp (mt Issue.anyError_iff.mpr hclear)
  · intro h goal hgoal hany
    have hsame := reported_of_anyError (Stage.mem_required_furthest hgoal) hany
    rw [hsame] at hany
    exact Issue.anyError_iff.mp hany h

theorem runAll_repeats : runAll { input, catalog } (first :: rest) =
    (runFurthest input catalog first rest).repeatErrors
      (failures input catalog (first :: rest)) := by
  have hclean := isClean_start input catalog
  have hgoals : ∀ goal ∈ first :: rest, goal ∈ (Stage.furthest first rest).required :=
    fun _ => Stage.mem_required_furthest
  have hnone : (redo { input, catalog } (Document.check input)
      (Stage.furthest first rest)).errors = [] := (issues_redo _ _ _).1
  rw [runAll_start, collect_reports (hclean.redo _ _) hgoals (Stage.furthest_mem first rest),
    hnone, List.nil_append, repeatErrors, runFurthest, run_start_errors,
    Issue.sort_flatten_replicate (Issue.severity_of_filter _).1, ← run_start]
  simp only [failures, run_start_hasError]

/-- **Running goal by goal leaves what a single run to the furthest goal leaves**, but for the
errors: those of the single run are there once for each run that fails. So it makes no difference
exactly when no more than one of them does. -/
theorem runAll_eq :
    runAll { input, catalog } (first :: rest) =
        (runFurthest input catalog first rest).repeatErrors
          (failures input catalog (first :: rest)) ∧
      (runAll { input, catalog } (first :: rest) = runFurthest input catalog first rest ↔
        failures input catalog (first :: rest) ≤ 1) := by
  have hstaged := runAll_repeats input catalog first rest
  have hsorted : Issue.sort (runFurthest input catalog first rest).errors =
      (runFurthest input catalog first rest).errors := by
    rw [runFurthest, run_start_errors, Issue.sort_sort]
  refine ⟨hstaged, ?_⟩
  rw [hstaged, repeatErrors_eq_iff hsorted, ← failures_eq_zero_iff]
  omega

end Staged

/-- An input that is no document, run to its check and then on, has its one error twice. -/
theorem checked_then_rendered :
    (runAll { input := .array [], catalog := .embedded } [.check, .render]).errors =
        List.replicate 2 (.error "SCHEMA_INVALID_ROOT" "$" "document must be a JSON object") ∧
      (runAll { input := .array [], catalog := .embedded } [.check, .render]).errors ≠
        (runFurthest (.array []) .embedded .check [.render]).errors := by
  decide +kernel

end Compilation
end EventPattern
