/-! The stages of a compilation.

A stage works on what other stages leave, and names these as its inputs. What a goal needs is
found by walking from it along the inputs (`required`). -/
namespace EventPattern

/-- What a stage leaves behind. -/
inductive Product where
  | document
  | model
  | review
  | resolvedModel
  | trail
  | iseql
deriving DecidableEq

inductive Stage where
  | check
  | adapt
  | review
  | resolve
  | render
deriving DecidableEq

namespace Stage

structure Description where
  name : String
  /-- The stages whose products the stage works on. -/
  inputs : List Stage
  outputs : List Product
  /-- A change in which the stage has to run again. -/
  invalidatedBy : String
  /-- What holds once the stage has passed. -/
  guarantees : String

def all : List Stage := [check, adapt, review, resolve, render]

def description : Stage → Description
  | check =>
    { name := "schema", inputs := [], outputs := [.document]
      invalidatedBy := "input document"
      guarantees := "tagged shape chosen, ticks/params in domain, interval refs exist" }
  | adapt =>
    { name := "adapt", inputs := [check], outputs := [.model]
      invalidatedBy := "document"
      guarantees := "one pipeline shape, origin paths recorded, MISSING_PARAMS queued" }
  | review =>
    { name := "validate", inputs := [adapt], outputs := [.review]
      invalidatedBy := "pipeline model + catalog"
      guarantees := "operators known, refs resolved, params within operator domains" }
  | resolve =>
    { name := "resolve", inputs := [review], outputs := [.resolvedModel, .trail]
      invalidatedBy := "pipeline model + catalog"
      guarantees := "base codes only, five params per relation, id-sorted arrays" }
  | render =>
    { name := "serialize", inputs := [resolve], outputs := [.iseql]
      invalidatedBy := "resolved model + catalog defaults"
      guarantees := "deterministic text, single trailing newline" }

def name (stage : Stage) : String := stage.description.name

def ofName? (name : String) : Option Stage := all.find? (·.name == name)

/-- Goes to a stage by way of its inputs and puts each stage it leaves behind into the order.
A stage that stands there has been visited. -/
def visit : Nat → List Stage → Stage → List Stage
  | 0, order, _ => order
  | depth + 1, order, stage =>
    if stage ∈ order then order
    else stage.description.inputs.foldl (visit depth) order ++ [stage]

/-- The stages that lead to a stage, itself the last. No way along the inputs passes more stages
than there are. -/
def required (stage : Stage) : List Stage := visit all.length [] stage

end Stage
end EventPattern
