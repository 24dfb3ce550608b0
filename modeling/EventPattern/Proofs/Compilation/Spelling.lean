import EventPattern.Catalog.Embedded
import EventPattern.Proofs.Compilation.Admission
import EventPattern.Proofs.Compilation.MissingParams
import EventPattern.Proofs.Review.Respelling

/-! Spelling is forgotten.

The names of parameters are Latin or Greek, and a document may use both, even for one parameter.
Once the document is read, nothing comes of the difference (`spelling_forgotten`): what is resolved
goes by the values that can be read (`Relation.resolve_inLatin`), and of the issues only the advice
on the spelling itself is lost, and the name of a parameter with a wrong value is another one. -/
namespace EventPattern

/-! ### Resolving -/

namespace Relation

variable (catalog : Catalog) (r : Relation (Option AuthoredParams))

theorem userParams_inLatin : userParams r.inLatin = userParams r := by
  unfold userParams inLatin
  cases r.params with
  | none => rfl
  | some params => exact params.normalize_inLatin

theorem resolve_inLatin : r.inLatin.resolve catalog = r.resolve catalog := by
  unfold resolve resolvedParams
  rw [userParams_inLatin]
  rfl

theorem explanations_inLatin : r.inLatin.explanations catalog = r.explanations catalog := by
  have hoverrides : overrideDecision? catalog r.inLatin = overrideDecision? catalog r := by
    funext key
    unfold overrideDecision?
    rw [userParams_inLatin]
    rfl
  have hdefaults : defaultDecisions catalog r.inLatin = defaultDecisions catalog r := by
    unfold defaultDecisions
    rw [userParams_inLatin]
    rfl
  unfold explanations decisions
  rw [hoverrides, hdefaults]
  rfl

end Relation

namespace AuthoredModel

variable (m : AuthoredModel) (catalog : Catalog)

theorem resolve_inLatin : m.inLatin.resolve catalog = m.resolve catalog := by
  have hrelations : m.inLatin.relations.map (Relation.resolve catalog) =
      m.relations.map (Relation.resolve catalog) := by
    show (m.relations.map Relation.inLatin).map _ = _
    rw [List.map_map]
    exact List.map_congr_left fun r _ => r.resolve_inLatin catalog
  unfold resolve
  rw [hrelations]
  rfl

theorem trail_inLatin : m.inLatin.trail catalog = m.trail catalog := by
  have hexplanations : m.inLatin.relations.flatMap (Relation.explanations catalog) =
      m.relations.flatMap (Relation.explanations catalog) := by
    show (m.relations.map Relation.inLatin).flatMap _ = _
    rw [List.flatMap_map]
    exact congrArg (List.flatMap · _) (funext fun r => r.explanations_inLatin catalog)
  rw [trail, trail, hexplanations]

end AuthoredModel

/-! ### Compiling -/

theorem Document.warnings_inLatin (doc : Document) (catalog : Catalog) :
    doc.inLatin.warnings catalog = (doc.warnings catalog).filter (!·.namesGreekKeys) := by
  rw [warnings_eq_review, warnings_eq_review, model_inLatin]
  exact Review.warnings_inLatin doc.model catalog doc.model_keepsApart

/-- What comes of a document and of the same one in Latin spelling. -/
structure CompileOutput.Respelled (doc : Document) (output output' : CompileOutput) : Prop where
  outcome : output'.isAccepted = output.isAccepted
  resolved : output'.resolved = output.resolved
  artifact : output'.artifact = output.artifact
  trail : output'.trail = output.trail
  errors : Shuffle (Issue.Respelled doc.origin) output.errors output'.errors
  warnings : output'.warnings = output.warnings.filter (!·.namesGreekKeys)

/-- **Spelling does not change meaning.** A document whose relations have their parameters written
in Latin spelling only, each with the value that counts, is a document like the one it is made
from. In every catalog the two are accepted or rejected alike, with the same resolved model, the
same text and the same trail. Their errors are the same up to order, but for the name of a
parameter that a path may end in; and so are their warnings, but for the advice to use Latin names,
of which nothing remains. -/
theorem spelling_forgotten (input : Json) (doc : Document)
    (hcheck : Document.check input = .ok doc) :
    Document.check input.inLatin = .ok doc.inLatin ∧
      ∀ catalog : Catalog,
        (compile catalog input).Respelled doc (compile catalog input.inLatin) := by
  have hlatin : Document.check input.inLatin = .ok doc.inLatin :=
    (Document.check_eq_ok_iff _ _).mpr ((Document.check_eq_ok_iff input doc).mp hcheck).inLatin
  refine ⟨hlatin, fun catalog => ?_⟩
  have herrors := Review.errors_inLatin doc.model catalog
  rw [← doc.model_inLatin, doc.origin_model] at herrors
  have hwarnings := doc.warnings_inLatin catalog
  by_cases hsound : (Review.ofModel doc.model catalog).errors = []
  · have hsound' := herrors.eq_nil_iff.mp hsound
    rw [compile_of_sound catalog hcheck hsound, compile_of_sound catalog hlatin hsound',
      doc.model_inLatin, AuthoredModel.resolve_inLatin, AuthoredModel.trail_inLatin]
    refine ⟨?_, rfl, rfl, rfl, .nil, hwarnings⟩
    rw [CompileOutput.isAccepted, CompileOutput.isAccepted]
  · have hfaults' := mt herrors.eq_nil_iff.mpr hsound
    rw [compile_of_faults catalog hcheck hsound, compile_of_faults catalog hlatin hfaults']
    refine ⟨?_, rfl, rfl, rfl, herrors, hwarnings⟩
    rw [CompileOutput.isAccepted, CompileOutput.isAccepted, Option.isSome_none, Bool.and_false,
      Bool.and_false]

/-- A pattern with a Greek value that does not count beside the Latin one, and with a Greek value
that counts. -/
def greekPattern : Json :=
  let interval (id : String) : Json :=
    .object [("end", .number (.ofUInt64 1)), ("id", .string id),
      ("predicate", .object [("name", .string "p")]), ("start", .number (.ofUInt64 0))]
  let relation (id : String) (params : Json.Fields) : Json :=
    .object [("id", .string id), ("left", .string "a"), ("operatorId", .string "Bef"),
      ("params", .object params), ("right", .string "b")]
  .object [("id", .string "m"), ("intervals", .array [interval "a", interval "b"]),
    ("meta", .object [("name", .string "Greek")]),
    ("relations", .array [relation "r" [("zeta", .string "<"), ("ζ", .string ">")],
      relation "s" [("ζ", .string ">"), ("η", .string "<")]]),
    ("schemaVersion", .string "1.0")]

/-- It is accepted with two pieces of advice, and rejected where only `<` is allowed. -/
theorem greekPattern_forgotten :
    (compile .embedded greekPattern).isAccepted ∧
      (compile .embedded greekPattern).warnings.length = 2 ∧
      (compile .embedded greekPattern.inLatin).isAccepted ∧
      (compile .embedded greekPattern.inLatin).warnings = [] ∧
      (compile looseCatalog greekPattern).errors.map (·.path) = ["$.relations[1].params.ζ"] ∧
      (compile looseCatalog greekPattern.inLatin).errors.map (·.path) =
        ["$.relations[1].params.zeta"] ∧
      ∃ doc, Document.check greekPattern = .ok doc ∧
        (compile .embedded greekPattern).Respelled doc
          (compile .embedded greekPattern.inLatin) ∧
        (compile looseCatalog greekPattern).Respelled doc
          (compile looseCatalog greekPattern.inLatin) := by
  have hread : (Document.check greekPattern).toOption.any (fun _ => true) := by decide +kernel
  obtain ⟨doc, hcheck, -⟩ := Document.exists_of_check_any hread
  obtain ⟨-, hrespelled⟩ := spelling_forgotten greekPattern doc hcheck
  have haccepted : (compile .embedded greekPattern).isAccepted := by decide +kernel
  have hnothing : (compile .embedded greekPattern).warnings.all (·.namesGreekKeys) := by
    decide +kernel
  refine ⟨haccepted, by decide +kernel, ?_, ?_, by decide +kernel, by decide +kernel, doc, hcheck,
    hrespelled .embedded, hrespelled looseCatalog⟩
  · rw [(hrespelled .embedded).outcome]
    exact haccepted
  · rw [(hrespelled .embedded).warnings, List.filter_eq_nil_iff]
    intro issue hissue
    rw [List.all_eq_true.mp hnothing issue hissue]
    decide

end EventPattern
