import EventPattern.Proofs.Compilation.Outcome
import EventPattern.Proofs.Document.Acceptance
import EventPattern.Proofs.Document.Proper

/-! When a compilation is accepted.

The check of the document already settles two things that the review asks again, that the ends
of a relation are intervals and that every value can be read. What is left to the catalog is
`Relation.Admitted`, and a compilation is accepted exactly when the document has no issue and
each of its relations is admitted (`acceptance_exact`); otherwise it hands out issues only. -/
namespace EventPattern

/-- What the catalog has to say about a relation of a model: its operator is known, its
constraints are there and are supported by the operator, and so are its values. -/
structure Relation.Admitted (model : AuthoredModel) (catalog : Catalog)
    (r : Relation (Option AuthoredParams)) (op : Operator) : Prop where
  operator : catalog.lookup? r.operator = some op
  constraints : ∀ id ∈ r.constraintIds, id ∈ model.constraints.map (·.id)
  supported : ∀ id ∈ r.constraintIds, ∀ c, model.constraint? id = some c →
    op.compatibility.supports c.kind = true
  values : ∀ key raw value, r.authored key = some raw → key.kind.read? raw = some value →
    op.domains.admits key.kind value = true

theorem Document.proper_of_check {input : Json} {doc : Document}
    (h : Document.check input = .ok doc) : doc.Proper :=
  ((Document.check_eq_ok_iff input doc).mp h).proper

theorem Relation.Proper.authored_readable {ids : List String}
    {r : Relation (Option AuthoredParams)} (h : r.Proper ids) {key : ParamKey} {raw : Json}
    (hauthored : r.authored key = some raw) : (key.kind.read? raw).isSome := by
  obtain ⟨params, hparams, heffective⟩ := Option.bind_eq_some_iff.mp hauthored
  exact (h.params params hparams).effective heffective

theorem Model.constraint?_isSome {P : Type} (model : Model P) (id : String) :
    (model.constraint? id).isSome ↔ id ∈ model.constraints.map (·.id) := by
  unfold constraint?
  rw [List.find?_isSome, List.mem_map]
  constructor
  · intro h
    obtain ⟨c, hc, hid⟩ := h
    exact ⟨c, hc, beq_iff_eq.mp hid⟩
  · intro h
    obtain ⟨c, hc, hid⟩ := h
    exact ⟨c, hc, beq_iff_eq.mpr hid⟩

/-- For a relation of a proper document, the review asks nothing else. -/
theorem Review.sound_iff_admitted {model : AuthoredModel} {catalog : Catalog}
    {r : Relation (Option AuthoredParams)} (hr : r.Proper (model.intervals.map (·.id))) :
    Review.Sound model catalog r ↔ ∃ op, r.Admitted model catalog op := by
  constructor
  · intro h
    obtain ⟨op, hop⟩ := Option.isSome_iff_exists.mp h.operator
    refine ⟨op, hop, fun id hid => ?_, fun id hid c hc => ?_, fun key raw value hraw hvalue => ?_⟩
    · obtain ⟨c, hc, -⟩ := h.references id hid
      exact (model.constraint?_isSome id).mp (Option.isSome_of_eq_some hc)
    · obtain ⟨found, hfound, hsupports⟩ := h.references id hid
      rw [hc] at hfound
      cases hfound
      exact hsupports op hop
    · obtain ⟨found, hfound, hadmits⟩ := h.values key raw hraw
      rw [hvalue] at hfound
      cases hfound
      exact hadmits op hop
  · intro h
    obtain ⟨op, h⟩ := h
    refine ⟨Option.isSome_of_eq_some h.operator, hr.left.2, hr.right.2, fun id hid => ?_,
      fun key raw hraw => ?_⟩
    · obtain ⟨c, hc⟩ := Option.isSome_iff_exists.mp
        ((model.constraint?_isSome id).mpr (h.constraints id hid))
      refine ⟨c, hc, fun found hfound => ?_⟩
      rw [h.operator] at hfound
      cases hfound
      exact h.supported id hid c hc
    · obtain ⟨value, hvalue⟩ := Option.isSome_iff_exists.mp (hr.authored_readable hraw)
      refine ⟨value, hvalue, fun found hfound => ?_⟩
      rw [h.operator] at hfound
      cases hfound
      exact h.values key raw value hraw hvalue

theorem Document.Proper.errors_eq_nil_iff {doc : Document} (h : doc.Proper) (catalog : Catalog) :
    (Review.ofModel doc.model catalog).errors = [] ↔
      ∀ r ∈ doc.model.relations, ∃ op, r.Admitted doc.model catalog op := by
  rw [Review.errors_eq_nil_iff]
  refine forall_congr' fun r => forall_congr' fun hr => ?_
  exact Review.sound_iff_admitted (h.relation r hr)

/-! ### The verdict -/

variable (catalog : Catalog) (input : Json)

/-- A compilation is accepted when its document is one and the review has nothing to fault. -/
theorem isAccepted_iff_errors :
    (compile catalog input).isAccepted ↔
      ∃ doc, Document.check input = .ok doc ∧ (Review.ofModel doc.model catalog).errors = [] := by
  cases hcheck : Document.check input with
  | error issues =>
    obtain ⟨hne, -, -⟩ := Document.issues_of_check hcheck
    rw [compile_of_error catalog hcheck]
    simp [CompileOutput.isAccepted]
  | ok doc =>
    by_cases hsound : (Review.ofModel doc.model catalog).errors = []
    · rw [compile_of_sound catalog hcheck hsound]
      simp [CompileOutput.isAccepted, hsound]
    · rw [compile_of_faults catalog hcheck hsound]
      simp [CompileOutput.isAccepted, hsound]

theorem isAccepted_iff_admitted :
    (compile catalog input).isAccepted ↔
      ∃ doc, Document.check input = .ok doc ∧
        ∀ r ∈ doc.model.relations, ∃ op, r.Admitted doc.model catalog op := by
  rw [isAccepted_iff_errors]
  refine exists_congr fun doc => and_congr_right fun hcheck => ?_
  exact (Document.proper_of_check hcheck).errors_eq_nil_iff catalog

/-- What comes of a document whose relations are all admitted. -/
theorem compile_of_admitted {catalog : Catalog} {input : Json} {doc : Document}
    (hcheck : Document.check input = .ok doc)
    (hadmitted : ∀ r ∈ doc.model.relations, ∃ op, r.Admitted doc.model catalog op) :
    compile catalog input =
      { artifact := some (Iseql.text (doc.model.resolve catalog) catalog)
        resolved := some (doc.model.resolve catalog)
        trail := doc.model.trail catalog
        errors := []
        warnings := doc.warnings catalog } :=
  compile_of_sound catalog hcheck
    (((Document.proper_of_check hcheck).errors_eq_nil_iff catalog).mpr hadmitted)

/-- An accepted compilation has a document, and all its relations are admitted. -/
theorem of_isAccepted {catalog : Catalog} {input : Json}
    (h : (compile catalog input).isAccepted) :
    ∃ doc, Document.check input = .ok doc ∧ doc.Proper ∧
      (∀ r ∈ doc.model.relations, ∃ op, r.Admitted doc.model catalog op) ∧
      compile catalog input =
        { artifact := some (Iseql.text (doc.model.resolve catalog) catalog)
          resolved := some (doc.model.resolve catalog)
          trail := doc.model.trail catalog
          errors := []
          warnings := doc.warnings catalog } := by
  obtain ⟨doc, hcheck, hadmitted⟩ := (isAccepted_iff_admitted catalog input).mp h
  exact ⟨doc, hcheck, Document.proper_of_check hcheck, hadmitted,
    compile_of_admitted hcheck hadmitted⟩

/-- What is not accepted hands out its issues and nothing else. -/
theorem of_not_isAccepted (h : ¬ (compile catalog input).isAccepted) :
    (compile catalog input).artifact = none ∧ (compile catalog input).resolved = none ∧
      (compile catalog input).trail = [] ∧ (compile catalog input).errors ≠ [] := by
  cases hcheck : Document.check input with
  | error issues =>
    obtain ⟨hne, -, -⟩ := Document.issues_of_check hcheck
    rw [compile_of_error catalog hcheck]
    exact ⟨rfl, rfl, rfl, hne⟩
  | ok doc =>
    have hfaults : (Review.ofModel doc.model catalog).errors ≠ [] := by
      intro hsound
      exact h ((isAccepted_iff_errors catalog input).mpr ⟨doc, hcheck, hsound⟩)
    rw [compile_of_faults catalog hcheck hfaults]
    exact ⟨rfl, rfl, rfl, hfaults⟩

/-- **Acceptance is exact and blocking.** A compilation is accepted exactly when the check of its
document finds no issue and every relation is admitted by the catalog. Then it has no errors,
and there are a text and a resolved model; otherwise there are neither, nor a trail, but
errors, and if the check of the document found issues, these are the errors and there are no
warnings. -/
theorem acceptance_exact (catalog : Catalog) (input : Json) :
    ((compile catalog input).isAccepted ↔
      ∃ doc, Document.check input = .ok doc ∧
        ∀ r ∈ doc.model.relations, ∃ op, r.Admitted doc.model catalog op) ∧
    ((compile catalog input).isAccepted →
      (compile catalog input).errors = [] ∧ (compile catalog input).artifact.isSome ∧
        (compile catalog input).resolved.isSome) ∧
    (¬ (compile catalog input).isAccepted →
      (compile catalog input).artifact = none ∧ (compile catalog input).resolved = none ∧
        (compile catalog input).trail = [] ∧ (compile catalog input).errors ≠ []) ∧
    ∀ issues, Document.check input = .error issues →
      (compile catalog input).errors = issues ∧ (compile catalog input).warnings = [] := by
  refine ⟨isAccepted_iff_admitted catalog input, fun h => ?_, of_not_isAccepted catalog input,
    fun issues h => ?_⟩
  · obtain ⟨doc, -, -, -, hcompile⟩ := of_isAccepted h
    rw [hcompile]
    exact ⟨rfl, rfl, rfl⟩
  · rw [compile_of_error catalog h]
    exact ⟨rfl, rfl⟩

end EventPattern
