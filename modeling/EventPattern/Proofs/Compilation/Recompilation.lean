import EventPattern.Proofs.Compilation.ResolvedValues
import EventPattern.Proofs.Resolution.Rewrapping

/-! Compiling what a compilation resolved.

Wrapped as a document and compiled again, the resolved model of an accepted compilation is
accepted, and nothing changes any more (`recompilation_fixed`). The catalog has to see the base
operators as it sees their aliases, because in the second run it is the base operators that
are asked. -/
namespace EventPattern

variable {catalog : Catalog}

/-- The resolved relation is admitted as its author's was, now under the base operator. -/
theorem Relation.Admitted.reauthor {model : AuthoredModel} {ids : List String}
    {r : Relation (Option AuthoredParams)} {op : Operator} (h : catalog.WellFormed)
    (hagree : catalog.AliasesAgree) (hr : r.Proper ids) (hop : r.Admitted model catalog op) :
    ∃ base,
      (r.resolve catalog).reauthor.Admitted (model.resolve catalog).reauthor catalog base := by
  obtain ⟨base, hbase, -, -⟩ := base?_of_lookup? r h hop.operator
  have hconstraint (id : String) : (model.resolve catalog).reauthor.constraint? id =
      (model.constraint? id).map Constraint.resolve := model.constraint?_resolve catalog id
  refine ⟨base, ⟨?_, fun id hid => ?_, fun id hid c hc => ?_, fun key raw value hraw hvalue => ?_⟩⟩
  · rw [lookup?_reauthor r h, hbase]
  · rw [← Model.constraint?_isSome, hconstraint, Option.isSome_map, Model.constraint?_isSome]
    exact hop.constraints id hid
  · rw [hconstraint] at hc
    obtain ⟨authored, hauthored, rfl⟩ := Option.map_eq_some_iff.mp hc
    rw [← (base_agrees hagree hop.operator hbase).2]
    exact hop.supported id hid authored hauthored
  · rw [authored_reauthor] at hraw
    obtain ⟨resolved, hresolved, rfl⟩ := Option.map_eq_some_iff.mp hraw
    rw [ParamKind.read?_toJson (readable_resolvedParams r h key resolved hresolved)] at hvalue
    cases hvalue
    exact hop.admits_base h hagree hr hbase hresolved

/-- The document that the resolved model is wrapped in passes the check and the review. -/
theorem Document.Proper.admitted_toDocument {doc : Document} (hdoc : doc.Proper)
    (h : catalog.WellFormed) (hagree : catalog.AliasesAgree)
    (hadmitted : ∀ r ∈ doc.model.relations, ∃ op, r.Admitted doc.model catalog op) :
    ∃ again, Document.check (doc.model.resolve catalog).toDocument = .ok again ∧
      again.model = (doc.model.resolve catalog).reauthor ∧
      ∀ r ∈ again.model.relations, ∃ op, r.Admitted again.model catalog op := by
  obtain ⟨again, hagain, hmodel⟩ := hdoc.check_toDocument h
  refine ⟨again, hagain, hmodel, fun r hr => ?_⟩
  rw [hmodel] at hr ⊢
  obtain ⟨resolved, hresolved, rfl⟩ := List.mem_map.mp hr
  obtain ⟨authored, hauthored, rfl⟩ := AuthoredModel.mem_relations_resolve.mp hresolved
  obtain ⟨op, hop⟩ := hadmitted authored hauthored
  exact hop.reauthor h hagree (hdoc.relation authored hauthored)

/-- **Recompiling changes nothing.** What an accepted compilation resolved, wrapped as a
document, compiles to the same text and the same model and leaves nothing to explain, in every
catalog whose aliases agree with their base operators; the embedded catalog is one. -/
theorem recompilation_fixed :
    (Catalog.embedded.Loadable ∧ Catalog.embedded.AliasesAgree) ∧
      ∀ (catalog : Catalog) (input : Json), catalog.Loadable → catalog.AliasesAgree →
        (compile catalog input).isAccepted →
          ∃ m, (compile catalog input).resolved = some m ∧
            (compile catalog m.toDocument).isAccepted ∧
            (compile catalog m.toDocument).trail = [] ∧
            (compile catalog m.toDocument).artifact = (compile catalog input).artifact ∧
            (compile catalog m.toDocument).resolved = some m := by
  refine ⟨⟨Catalog.embedded_loadable, Catalog.embedded_aliasesAgree⟩, ?_⟩
  intro catalog input hload hagree haccepted
  have h := hload.wellFormed
  obtain ⟨doc, -, hproper, hadmitted, hcompile⟩ := of_isAccepted haccepted
  obtain ⟨again, hagain, hmodel, hreadmitted⟩ := hproper.admitted_toDocument h hagree hadmitted
  have hrecompile := compile_of_admitted hagain hreadmitted
  rw [hmodel, doc.model.resolve_reauthor h, doc.model.trail_reauthor h] at hrecompile
  refine ⟨doc.model.resolve catalog, by rw [hcompile], ?_, ?_, ?_, ?_⟩
  · exact (isAccepted_iff_admitted catalog _).mpr ⟨again, hagain, hreadmitted⟩
  · rw [hrecompile]
  · rw [hrecompile, hcompile]
  · rw [hrecompile]

/-- A pattern in which one interval meets another, in the terms of Allen's algebra. -/
def meetingPattern : Json :=
  let interval (id : String) (start stop : Nat) : Json :=
    .object [("end", .number (.ofUInt64 (.ofNat stop))), ("id", .string id),
      ("predicate", .object [("name", .string "p")]), ("start", .number (.ofUInt64 (.ofNat start)))]
  .object [("constraints", .object [("temporal", .array [
      .object [("id", .string "r"), ("leftIntervalId", .string "b"),
        ("operatorKey", .string "Allen.Meets"), ("params", .object [("ζ", .string "<")]),
        ("rightIntervalId", .string "a")]])]),
    ("id", .string "m"), ("intervals", .array [interval "b" 0 1, interval "a" 1 2]),
    ("name", .string "Meeting"), ("schemaVersion", .string "1")]

theorem recompilation_of_meetingPattern :
    (compile .embedded meetingPattern).isAccepted ∧
      ∃ m, (compile .embedded meetingPattern).resolved = some m ∧
        (compile .embedded m.toDocument).isAccepted ∧
        (compile .embedded m.toDocument).trail = [] ∧
        (compile .embedded m.toDocument).artifact =
          (compile .embedded meetingPattern).artifact ∧
        (compile .embedded m.toDocument).resolved = some m := by
  have haccepted : (compile .embedded meetingPattern).isAccepted := by decide +kernel
  exact ⟨haccepted, recompilation_fixed.2 .embedded meetingPattern Catalog.embedded_loadable
    Catalog.embedded_aliasesAgree haccepted⟩

end EventPattern
