import EventPattern.Catalog.Embedded
import EventPattern.Proofs.Compilation.Acceptance
import EventPattern.Proofs.Document.Recasting
import EventPattern.Proofs.Review.Repetition

/-! The two shapes of documents agree.

A legacy document without further constraints and the canonical document that says the same
(`Json.recast`) have the same model, up to its version and origin. Neither of these shows in the
text, in the trail or in what is resolved, and in the issues they show in the paths only
(`shapes_agree`). -/
namespace EventPattern

open EventPattern.Relation (Part)
open EventPattern.Relation.Part (NamesOperator)

/-! ### Warnings -/

namespace Document

variable {doc other : Document} {version : String} {origin : Origin}

theorem missingParamsIssues_relocated (h : other.model = doc.model.relocate version origin) :
    List.Forall₂ (Issue.Relocated doc.model.origin origin) doc.missingParamsIssues
      other.missingParamsIssues := by
  rw [missingParamsIssues_eq, missingParamsIssues_eq, h]
  refine forall₂_filterMap (fun entry => ?_) _
  split
  · exact .some (Issue.relocated_remark (.missingParams entry.1.id) .params entry.2)
  · exact .none

theorem warnings_relocated {catalog : Catalog} (ho : NamesOperator doc.model.origin)
    (ho' : NamesOperator origin) (h : other.model = doc.model.relocate version origin)
    (hreview : Review.Relocated doc.model.origin origin (Review.ofModel doc.model catalog)
      (Review.ofModel other.model catalog)) :
    List.Forall₂ (Issue.Relocated doc.model.origin origin) (doc.warnings catalog)
      (other.warnings catalog) := by
  have hmissing := Issue.relocated_sort ho ho'
    (Issue.relocated_distinct ho ho' (missingParamsIssues_relocated h))
  exact Issue.relocated_sort ho ho'
    (Issue.relocated_distinct ho ho' (List.rel_append hmissing hreview.warnings))

end Document

/-! ### Models that stand elsewhere -/

/-- What comes of a document and of another one whose model is the same, but for its version and
its origin. -/
structure CompileOutput.Relocated (doc other : Document) (output output' : CompileOutput) :
    Prop where
  outcome : output'.isAccepted = output.isAccepted
  artifact : output'.artifact = output.artifact
  trail : output'.trail = output.trail
  resolved : output'.resolved = output.resolved.map (·.relocate other.version other.origin)
  errors : List.Forall₂ (Issue.Relocated doc.origin other.origin) output.errors output'.errors
  warnings : List.Forall₂ (Issue.Relocated doc.origin other.origin) output.warnings
    output'.warnings

theorem compile_relocated {input input' : Json} {doc other : Document} (catalog : Catalog)
    (hcheck : Document.check input = .ok doc) (hcheck' : Document.check input' = .ok other)
    (hmodel : other.model = doc.model.relocate other.version other.origin)
    (hconstraints : doc.model.constraints = []) :
    (compile catalog input).Relocated doc other (compile catalog input') := by
  have hends : ∀ r ∈ doc.model.relations, r.left ∈ doc.model.intervals.map (·.id) ∧
      r.right ∈ doc.model.intervals.map (·.id) := fun r hr =>
    have hproper := (Document.proper_of_check hcheck).relation r hr
    ⟨hproper.left.2, hproper.right.2⟩
  have ho : NamesOperator doc.model.origin := doc.origin_model ▸ doc.namesOperator
  have hreview : Review.Relocated doc.model.origin other.origin
      (Review.ofModel doc.model catalog) (Review.ofModel other.model catalog) :=
    hmodel ▸ Review.ofModel_relocated catalog ho other.namesOperator hconstraints hends
  have hwarnings := Document.warnings_relocated ho other.namesOperator hmodel hreview
  rw [doc.origin_model] at hwarnings hreview
  by_cases hsound : (Review.ofModel doc.model catalog).errors = []
  · have hsound' : (Review.ofModel other.model catalog).errors = [] :=
      List.forall₂_nil_left_iff.mp (hsound ▸ hreview.errors)
    rw [compile_of_sound catalog hcheck hsound, compile_of_sound catalog hcheck' hsound', hmodel]
    exact ⟨rfl, rfl, rfl, rfl, .nil, hwarnings⟩
  · have hfaults' : (Review.ofModel other.model catalog).errors ≠ [] := fun hnone =>
      hsound (List.forall₂_nil_right_iff.mp (hnone ▸ hreview.errors))
    rw [compile_of_faults catalog hcheck hsound, compile_of_faults catalog hcheck' hfaults']
    refine ⟨?_, rfl, rfl, rfl, hreview.errors, hwarnings⟩
    rw [CompileOutput.isAccepted, CompileOutput.isAccepted, Option.isSome_none, Bool.and_false,
      Bool.and_false]

/-! ### The shapes -/

/-- The same issue, in a legacy document and in the canonical one that says the same. -/
structure Issue.Recast (a b : Issue) : Prop where
  severity : b.severity = a.severity
  code : b.code = a.code
  message : b.message = a.message
  path : ∃ (i : Nat) (s t : String),
    a.path = Location.indexText "$.constraints.temporal" i ++ s ∧
    b.path = Location.indexText "$.relations" i ++ t ∧
    (t = s ∨ s = ".operatorKey" ∧ t = ".operatorId")

theorem Issue.Relocated.recast {d : LegacyDocument} {c : CanonicalDocument} {a b : Issue}
    (h : Issue.Relocated (Document.legacy d).origin (Document.canonical c).origin a b) :
    a.Recast b := by
  obtain ⟨hseverity, hcode, hmessage, part, i, ha, hb⟩ := h
  refine ⟨hseverity, hcode, hmessage, i, _, _, ha.trans (Part.text_place _ i part),
    hb.trans (Part.text_place _ i part), ?_⟩
  by_cases hpart : part = .operator
  · subst hpart
    exact .inr ⟨rfl, rfl⟩
  · exact .inl (Part.suffix_eq hpart _ _)

/-- **The two shapes agree.** The canonical document that says the same as a legacy one without
further constraints is a document. In every catalog the two are accepted or rejected alike, with
the same text, the same trail and the same resolved model up to its version and origin. Their
errors and warnings are the same, one by one and in the same order, up to the place of the
relations and the name of their operator in the paths. -/
theorem shapes_agree (input : Json) (d : LegacyDocument)
    (hcheck : Document.check input = .ok (.legacy d)) (hconstraints : d.constraints = []) :
    Document.check input.recast = .ok (.canonical d.recast) ∧
      ∀ catalog : Catalog,
        (compile catalog input.recast).isAccepted = (compile catalog input).isAccepted ∧
        (compile catalog input.recast).artifact = (compile catalog input).artifact ∧
        (compile catalog input.recast).trail = (compile catalog input).trail ∧
        (compile catalog input.recast).resolved = (compile catalog input).resolved.map (fun m =>
          { m with schemaVersion := Document.canonicalVersion
                   origin := (Document.canonical d.recast).origin }) ∧
        List.Forall₂ Issue.Recast (compile catalog input).errors
          (compile catalog input.recast).errors ∧
        List.Forall₂ Issue.Recast (compile catalog input).warnings
          (compile catalog input.recast).warnings := by
  have hdoc := (Document.check_eq_ok_iff input (.legacy d)).mp hcheck
  have hrecast := (Document.check_eq_ok_iff _ _).mpr hdoc.recast
  have hnone : (Document.legacy d).model.constraints = [] := by
    show d.constraints.map _ = []
    rw [hconstraints, List.map_nil]
  refine ⟨hrecast, fun catalog => ?_⟩
  have h := compile_relocated catalog hcheck hrecast (LegacyDocument.model_recast hconstraints)
    hnone
  exact ⟨h.outcome, h.artifact, h.trail, h.resolved,
    h.errors.imp fun _ _ => Issue.Relocated.recast,
    h.warnings.imp fun _ _ => Issue.Relocated.recast⟩

/-- A legacy pattern with an alias of its operator noted, an operator that is not known and a
relation without parameters. -/
def datedPattern : Json :=
  let interval (id : String) : Json :=
    .object [("end", .number (.ofUInt64 1)), ("id", .string id),
      ("predicate", .object [("name", .string "p")]), ("start", .number (.ofUInt64 0))]
  .object [("constraints", .object [("temporal", .array [
      .object [("allenAlias", .string "before"), ("id", .string "r"),
        ("leftIntervalId", .string "a"), ("operatorKey", .string "Bef"),
        ("rightIntervalId", .string "b")],
      .object [("id", .string "s"), ("leftIntervalId", .string "b"),
        ("operatorKey", .string "Nope"), ("params", .object [("ζ", .string "<")]),
        ("rightIntervalId", .string "a")]])]),
    ("createdAt", .string "today"), ("id", .string "m"),
    ("intervals", .array [interval "a", interval "b"]), ("name", .string "Dated"),
    ("schemaVersion", .string "1")]

theorem datedPattern_agrees :
    (compile .embedded datedPattern).errors.length = 1 ∧
      (compile .embedded datedPattern).warnings.length = 2 ∧
      (compile .embedded datedPattern.recast).isAccepted =
        (compile .embedded datedPattern).isAccepted ∧
      List.Forall₂ Issue.Recast (compile .embedded datedPattern).errors
        (compile .embedded datedPattern.recast).errors ∧
      List.Forall₂ Issue.Recast (compile .embedded datedPattern).warnings
        (compile .embedded datedPattern.recast).warnings := by
  have hlegacy : (Document.check datedPattern).toOption.any (fun doc =>
      doc.version = Document.legacyVersion ∧ doc.constraintIds = []) := by decide +kernel
  cases hcheck : Document.check datedPattern with
  | error issues =>
    rw [hcheck] at hlegacy
    cases hlegacy
  | ok doc =>
    rw [hcheck] at hlegacy
    obtain ⟨hversion, hids⟩ := of_decide_eq_true hlegacy
    cases doc with
    | canonical d => exact absurd hversion (by decide : Document.canonicalVersion ≠ _)
    | legacy d =>
      have hnone : d.constraints = [] := List.map_eq_nil_iff.mp hids
      obtain ⟨-, hagree⟩ := shapes_agree datedPattern d hcheck hnone
      obtain ⟨houtcome, -, -, -, herrors, hwarnings⟩ := hagree .embedded
      exact ⟨by decide +kernel, by decide +kernel, houtcome, herrors, hwarnings⟩

end EventPattern
