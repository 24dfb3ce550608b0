import EventPattern.Compilation.Stage
import EventPattern.Document.Grammar
import EventPattern.Document.Model
import EventPattern.Iseql.Text
import EventPattern.Resolution
import EventPattern.Review

/-! Running a compilation.

A compilation gathers the products and the issues of its stages. `run` takes it through
the stages that a goal needs and stops after the first one that reports an error; running
on from where an earlier run left off keeps what is there. -/
namespace EventPattern

structure Compilation where
  input : Json
  catalog : Catalog
  document : Option Document := none
  model : Option AuthoredModel := none
  resolved : Option ResolvedModel := none
  trail : List Explanation := []
  iseql : Option String := none
  errors : List Issue := []
  warnings : List Issue := []
  hasError : Bool := false

/-- The warnings for relations without parameters, as the document itself shows them. -/
def Document.missingParamsIssues (doc : Document) : List Issue :=
  doc.relationParams.zipIdx.filterMap fun ((id, params), i) =>
    if params.all AuthoredParams.isEmpty then
      some (missingParamsIssue (Location.index doc.origin.relations i).text id)
    else none

namespace Compilation

/-- A stage does its work and reports its issues, or lacks what it works on. -/
def perform (c : Compilation) : Stage → Option (Compilation × List Issue)
  | .check =>
    match Document.check c.input with
    | .ok doc => some ({ c with document := some doc }, [])
    | .error issues => some ({ c with document := none }, issues)
  | .adapt => c.document.map fun doc =>
    ({ c with model := some doc.model }, doc.missingParamsIssues)
  | .review => c.model.map fun model =>
    let review := Review.ofModel model c.catalog
    (c, review.errors ++ review.warnings)
  | .resolve => c.model.map fun model =>
    ({ c with resolved := some (model.resolve c.catalog), trail := model.trail c.catalog }, [])
  | .render => c.resolved.map fun resolved =>
    ({ c with iseql := some (Iseql.text resolved c.catalog) }, [])

/-- Takes in the issues of a stage; a warning is kept once. -/
def collect (c : Compilation) (issues : List Issue) : Compilation :=
  { c with
    errors := Issue.sort (c.errors ++ issues.filter Issue.isError)
    warnings := Issue.sort (Issue.distinct (c.warnings ++ issues.filter (!·.isError)))
    hasError := c.hasError || Issue.anyError issues }

/-- What a run leaves: the compilation, what each stage reported, and where it stopped. -/
structure Outcome where
  compilation : Compilation
  reports : List (Stage × List Issue) := []
  stopped : Option Stage := none

def runStages (c : Compilation) : List Stage → Outcome
  | [] => { compilation := c }
  | stage :: rest =>
    match c.perform stage with
    | none => { compilation := c, stopped := some stage }
    | some (next, issues) =>
      let next := next.collect issues
      if Issue.anyError issues then
        { compilation := next, reports := [(stage, issues)], stopped := some stage }
      else
        let outcome := next.runStages rest
        { outcome with reports := (stage, issues) :: outcome.reports }

def run (c : Compilation) (goal : Stage) : Outcome := c.runStages goal.required

/-- The message of a run that stopped. -/
def stopMessage (stage : Stage) : String := stage.name ++ " pass reported errors"

end Compilation

/-! ### Compiling a document -/

structure CompileOutput where
  artifact : Option String := none
  resolved : Option ResolvedModel := none
  trail : List Explanation := []
  errors : List Issue
  warnings : List Issue

/-- A compilation with an error leaves its issues only. -/
def Compilation.output (c : Compilation) : CompileOutput :=
  if c.hasError then { errors := c.errors, warnings := c.warnings }
  else
    { artifact := c.iseql, resolved := c.resolved, trail := c.trail, errors := c.errors
      warnings := c.warnings }

def CompileOutput.isAccepted (o : CompileOutput) : Bool := o.errors.isEmpty && o.artifact.isSome

/-- The name of an outcome. -/
def outcomeName (accepted : Bool) : String := if accepted then "accepted" else "rejected"

def compile (catalog : Catalog) (input : Json) : CompileOutput :=
  (Compilation.run { input, catalog } .render).compilation.output

end EventPattern
