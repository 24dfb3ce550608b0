import EventPattern.Catalog.Embedded
import EventPattern.Proofs.Compilation.Artifact
import EventPattern.Proofs.Compilation.ResolvedValues
import EventPattern.Proofs.Resolution.Correspondence

/-! Accepted patterns refer to nothing outside themselves.

Whatever a resolved relation names is there: its operator in the catalog, its ends in the
section of the intervals, its constraints in the model (`Relation.Closed`). The constraint that
an id leads to is the one the review has seen, also where several have this id, because sorting
keeps which of them is first. So the text is written without a stand-in for anything that
cannot be found (`accepted_closed`). -/
namespace EventPattern

namespace Iseql

/-! ### The section of the intervals -/

/-- The lines below a heading, up to the next empty line. -/
def below (heading : String) (lines : List String) : List String :=
  ((lines.dropWhile (· ≠ heading)).drop 1).takeWhile (· ≠ "")

theorem hash_append_ne_intervals (rest : String) : "# " ++ rest ≠ "INTERVALS" := by
  intro h
  have hchars := congrArg String.toList h
  simp at hchars

/-- Nothing above the heading is taken for it, and no line below it is empty. -/
theorem below_intervals (m : ResolvedModel) (c : Catalog) :
    below "INTERVALS" (lines m c) = (sortOn Interval.id m.intervals).map intervalLine := by
  have hcounts (n k : String) :
      "# intervals: " ++ n ++ ", relations: " ++ k ≠ "INTERVALS" := by
    intro h
    have hchars := congrArg String.toList h
    simp at hchars
  have hfilled : ∀ line ∈ (sortOn Interval.id m.intervals).map intervalLine,
      decide (line ≠ "") = true := by
    intro line hline
    obtain ⟨i, -, rfl⟩ := List.mem_map.mp hline
    exact decide_eq_true (startsAt_intervalLine i).ne_empty
  have hempty : ("" : String) ≠ "INTERVALS" := by decide
  simp only [below, lines, List.cons_append, List.nil_append, List.append_assoc,
    List.dropWhile_cons, ne_eq, hash_append_ne_intervals, hcounts, hempty, not_false_eq_true,
    decide_true, if_true, not_true_eq_false, decide_false, Bool.false_eq_true, if_false,
    List.drop_one, List.tail_cons]
  rw [List.takeWhile_append_of_pos hfilled, List.takeWhile_cons_of_neg (by simp),
    List.append_nil]

/-- An interval of the id has its line in the section of the intervals: `@`, the id and a colon,
and then what is said of the interval. -/
def IsListed (m : ResolvedModel) (c : Catalog) (id : String) : Prop :=
  ∃ i ∈ m.intervals, i.id = id ∧ intervalLine i ∈ below "INTERVALS" (lines m c) ∧
    ∃ rest, intervalLine i = "@" ++ id ++ ":" ++ rest

theorem intervalLine_eq (i : Interval) :
    intervalLine i = "@" ++ i.id ++ ":" ++ (" " ++ call i.predicate) := by
  have hcolon : (": " : String) = ":" ++ " " := by decide
  rw [intervalLine, hcolon]
  simp only [String.append_assoc]

theorem isListed_of_mem {m : ResolvedModel} (c : Catalog) {id : String}
    (h : id ∈ m.intervals.map (·.id)) : IsListed m c id := by
  obtain ⟨i, hi, rfl⟩ := List.mem_map.mp h
  refine ⟨i, hi, rfl, ?_, _, intervalLine_eq i⟩
  rw [below_intervals]
  exact List.mem_map_of_mem ((mem_sortOn Interval.id).mpr hi)

end Iseql

/-! ### Relations -/

/-- Everything that a relation of the resolved model names is there; `reference` is what its
author calls the operator. -/
structure Relation.Closed (catalog : Catalog) (model : AuthoredModel) (m : ResolvedModel)
    (reference : String) (resolved : Relation TypedParams) (op base : Operator) : Prop where
  named : catalog.lookup? reference = some op
  behind : catalog.base? op = some base ∧ base ∈ catalog.operators ∧ base.aliasOf = none
  operator : resolved.operator = base.code
  /-- The operator that the text looks up for its defaults. -/
  known : (catalog.lookup? resolved.operator).bind catalog.base? = some base
  left : Iseql.IsListed m catalog resolved.left
  right : Iseql.IsListed m catalog resolved.right
  constraints : ∀ id ∈ resolved.constraintIds, ∃ c, model.constraint? id = some c ∧
    m.constraint? id = some c.resolve ∧ c.resolve ∈ m.constraints
  extras : ∀ e ∈ Iseql.extras m resolved, e.constraint ∈ m.constraints ∧
    e.constraint.id ∈ resolved.constraintIds ∧
    op.compatibility.supports e.constraint.kind = true

variable {catalog : Catalog}

theorem Model.mem_of_constraint? {P : Type} {model : Model P} {id : String} {c : Constraint}
    (h : model.constraint? id = some c) : c ∈ model.constraints ∧ c.id = id := by
  unfold constraint? at h
  have hid := List.find?_some h
  exact ⟨List.mem_of_find?_eq_some h, beq_iff_eq.mp hid⟩

/-- The constraint that the review has seen under an id is the one that the text finds. -/
theorem Relation.Admitted.constraint {model : AuthoredModel}
    {r : Relation (Option AuthoredParams)} {op : Operator} (hop : r.Admitted model catalog op)
    {id : String} (hid : id ∈ r.constraintIds) :
    ∃ c, model.constraint? id = some c ∧ op.compatibility.supports c.kind = true ∧
      (model.resolve catalog).constraint? id = some c.resolve := by
  obtain ⟨c, hc⟩ := Option.isSome_iff_exists.mp
    ((model.constraint?_isSome id).mpr (hop.constraints id hid))
  refine ⟨c, hc, hop.supported id hid c hc, ?_⟩
  rw [model.constraint?_resolve, hc, Option.map_some]

theorem Relation.Admitted.closed {model : AuthoredModel} {r : Relation (Option AuthoredParams)}
    {op : Operator} (h : catalog.WellFormed) (hr : r.Proper (model.intervals.map (·.id)))
    (hop : r.Admitted model catalog op) :
    ∃ base, (r.resolve catalog).Closed catalog model (model.resolve catalog) r.operator op
      base := by
  obtain ⟨base, hbase, hmem, hnone⟩ := r.base?_of_lookup? h hop.operator
  have hbehind := (base?_of_named hop.operator).symm.trans hbase
  have hids := model.ids_resolve_perm catalog
  exact ⟨base, {
    named := hop.operator
    behind := ⟨hbehind, hmem, hnone⟩
    operator := by
      show r.resolvedOperator catalog = base.code
      rw [resolvedOperator, hbase]
      rfl
    known := by
      show (catalog.lookup? (r.resolvedOperator catalog)).bind catalog.base? = some base
      rw [lookup?_resolvedOperator r h, hbase, Option.bind_some, Catalog.base?, hnone]
    left := Iseql.isListed_of_mem catalog (hids.mem_iff.mpr hr.left.2)
    right := Iseql.isListed_of_mem catalog (hids.mem_iff.mpr hr.right.2)
    constraints := by
      intro id hid
      obtain ⟨c, hc, -, hfound⟩ := hop.constraint hid
      exact ⟨c, hc, hfound, (Model.mem_of_constraint? hfound).1⟩
    extras := by
      intro e he
      obtain ⟨id, hid, hfound⟩ := Iseql.mem_extras he
      obtain ⟨c, -, hsupports, hresolved⟩ := hop.constraint hid
      obtain ⟨hmem, hsame⟩ := Model.mem_of_constraint? hfound
      rw [hresolved] at hfound
      refine ⟨hmem, hsame ▸ hid, ?_⟩
      rw [← Option.some.inj hfound]
      exact hsupports }⟩

/-! ### Patterns -/

/-- **Accepted patterns are closed.** Every relation of an accepted pattern is one of its document,
resolved, and all that it names is there: it is written under the base operator of the one that
its author names, between intervals that the text lists, and each of its constraints is found.
What is shown between brackets comes of constraints that the author's operator supports. -/
theorem accepted_closed (catalog : Catalog) (input : Json) (hload : catalog.Loadable)
    (haccepted : (compile catalog input).isAccepted) :
    ∃ doc m, Document.check input = .ok doc ∧ (compile catalog input).resolved = some m ∧
      (compile catalog input).artifact = some (unlines (Iseql.lines m catalog)) ∧
      ∀ resolved ∈ m.relations, ∃ r ∈ doc.model.relations, resolved = r.resolve catalog ∧
        ∃ op base, resolved.Closed catalog doc.model m r.operator op base := by
  obtain ⟨doc, hcheck, hproper, hadmitted, hcompile⟩ := of_isAccepted haccepted
  refine ⟨doc, doc.model.resolve catalog, hcheck, by rw [hcompile], ?_, fun resolved hmem => ?_⟩
  · rw [hcompile]
    exact congrArg some Iseql.text_eq_unlines
  · obtain ⟨r, hr, rfl⟩ := AuthoredModel.mem_relations_resolve.mp hmem
    obtain ⟨op, hop⟩ := hadmitted r hr
    exact ⟨r, hr, rfl, op, hop.closed hload.wellFormed (hproper.relation r hr)⟩

/-- An alias with two further constraints, one of whose ids is used again for a note. -/
def countedPattern : Json :=
  let interval (id : String) (start : UInt64) : Json :=
    .object [("end", .number (.ofUInt64 2)), ("id", .string id),
      ("predicate", .object [("name", .string "p")]), ("start", .number (.ofUInt64 start))]
  let constraint (id kind key : String) : Json :=
    .object [("id", .string id), ("kind", .string kind),
      ("payload", .object [(key, .number (.ofUInt64 3))])]
  .object [("constraints", .object [
      ("extra", .array [constraint "few" "robustness" "value", constraint "few" "note" "text",
        constraint "all" "cardinality" "min"]),
      ("temporal", .array [.object [("constraintIds", .array [.string "few", .string "all"]),
        ("id", .string "r"), ("leftIntervalId", .string "b"),
        ("operatorKey", .string "allen_before"), ("rightIntervalId", .string "a")]])]),
    ("id", .string "m"), ("intervals", .array [interval "b" 0, interval "a" 1]),
    ("name", .string "Counted"), ("schemaVersion", .string "1")]

theorem countedPattern_closed :
    Catalog.embedded.Loadable ∧ (compile .embedded countedPattern).isAccepted ∧
      ∃ m, (compile .embedded countedPattern).resolved = some m ∧
        ∃ resolved ∈ m.relations, (Iseql.extras m resolved).length = 2 ∧
          ∃ (model : AuthoredModel) (reference : String) (op base : Operator),
            resolved.Closed .embedded model m reference op base := by
  have haccepted : (compile .embedded countedPattern).isAccepted := by decide +kernel
  have hshown : (compile .embedded countedPattern).resolved.any (fun m =>
      m.relations.any fun resolved => (Iseql.extras m resolved).length = 2) := by
    decide +kernel
  obtain ⟨doc, m, -, hm, -, hclosed⟩ :=
    accepted_closed .embedded countedPattern Catalog.embedded_loadable haccepted
  rw [hm, Option.any_some] at hshown
  obtain ⟨resolved, hmem, hlength⟩ := List.any_eq_true.mp hshown
  obtain ⟨r, -, -, op, base, hresolved⟩ := hclosed resolved hmem
  exact ⟨Catalog.embedded_loadable, haccepted, m, hm, resolved, hmem, of_decide_eq_true hlength,
    doc.model, r.operator, op, base, hresolved⟩

end EventPattern
