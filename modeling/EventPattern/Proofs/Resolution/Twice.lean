import EventPattern.Proofs.Json.IdOrder
import EventPattern.Proofs.Resolution.Layers

/-! Resolving what is resolved already.

`ResolvedModel.reauthor` takes a resolved model for one that an author wrote, with every
parameter spelled out. Resolving it again gives the same model (`resolve_reauthor`) and has
nothing to explain (`trail_reauthor`): the base operator is named directly, all parameters are
given, and everything is in order. This does not depend on the model being a sound one. -/
namespace EventPattern

/-- The relation as an author would write it, with all its parameters. -/
def Relation.reauthor (r : Relation TypedParams) : Relation (Option AuthoredParams) :=
  { r with params := some (.ofTyped r.params) }

/-- The model as an author would write it. -/
def ResolvedModel.reauthor (m : ResolvedModel) : AuthoredModel :=
  { schemaVersion := m.schemaVersion, id := m.id, name := m.name, description := m.description
    intervals := m.intervals, relations := m.relations.map Relation.reauthor
    constraints := m.constraints, selection := m.selection, origin := m.origin }

/-! ### Relations -/

namespace Relation

theorem userParams_reauthor {r : Relation TypedParams} (h : r.params.Readable) :
    userParams r.reauthor = r.params := AuthoredParams.normalize_ofTyped h

theorem authored_reauthor (r : Relation TypedParams) (key : ParamKey) :
    r.reauthor.authored key = (r.params.get key).map key.kind.toJson :=
  AuthoredParams.effective_ofTyped r.params key

section WellFormed
variable {catalog : Catalog} (r : Relation (Option AuthoredParams)) (h : catalog.WellFormed)
include h

theorem lookup?_reauthor :
    catalog.lookup? (resolve catalog r).reauthor.operator = base? catalog r :=
  lookup?_resolvedOperator r h

theorem base?_reauthor : base? catalog (resolve catalog r).reauthor = base? catalog r := by
  have hlookup := lookup?_reauthor r h
  rw [base?, hlookup]
  cases hbase : base? catalog r with
  | none => rfl
  | some base =>
    have hnone := (base?_mem r h hbase).2
    rw [Option.bind_some, Catalog.base?, hnone]

/-- A base operator fixes nothing. -/
theorem fixedParams_reauthor : fixedParams catalog (resolve catalog r).reauthor = {} := by
  have hlookup := lookup?_reauthor r h
  rw [fixedParams, hlookup]
  cases hbase : base? catalog r with
  | none => rfl
  | some base =>
    have hnone := (base?_mem r h hbase).2
    rw [Option.bind_some, hnone]
    rfl

theorem userParams_resolve : userParams (resolve catalog r).reauthor = resolvedParams catalog r :=
  userParams_reauthor (readable_resolvedParams r h)

/-- **A relation is resolved once and for all.** -/
theorem resolve_reauthor : resolve catalog (resolve catalog r).reauthor = resolve catalog r := by
  have hoperator : resolvedOperator catalog (resolve catalog r).reauthor =
      resolvedOperator catalog r := by
    rw [resolvedOperator, base?_reauthor r h]
    show ((base? catalog r).map _).getD (resolvedOperator catalog r) = _
    unfold resolvedOperator
    cases base? catalog r <;> rfl
  have hparams : resolvedParams catalog (resolve catalog r).reauthor =
      resolvedParams catalog r := by
    refine ParamRecord.ext_get fun key => ?_
    obtain ⟨value, hvalue⟩ := Option.isSome_iff_exists.mp
      ((ParamRecord.isComplete_iff _).mp (isComplete_resolvedParams r h) key)
    rw [get_resolvedParams, userParams_resolve r h, hvalue, Option.some_or]
  show Relation.mk _ _ _ _ _ _ _ = Relation.mk _ _ _ _ _ _ _
  rw [hoperator, hparams]
  rfl

/-- There is nothing left to decide. -/
theorem decisions_reauthor : decisions catalog (resolve catalog r).reauthor = [] := by
  have hcomplete := isComplete_resolvedParams r h
  have hoperator : operatorDecisions catalog (resolve catalog r).reauthor = [] := by
    unfold operatorDecisions
    rw [lookup?_reauthor r h, base?_reauthor r h]
    cases hbase : base? catalog r with
    | none => rfl
    | some base =>
      have halias : base.isAlias = false := by
        rw [Operator.isAlias, (base?_mem r h hbase).2]
        rfl
      have hcode : (resolve catalog r).reauthor.operator = base.code := by
        show resolvedOperator catalog r = base.code
        rw [resolvedOperator, hbase]
        rfl
      simp only [halias, hcode, ne_eq, not_true_eq_false, if_false, Bool.false_eq_true]
  have hoverrides : ParamKey.all.filterMap
      (overrideDecision? catalog (resolve catalog r).reauthor) = [] := by
    refine List.filterMap_eq_nil_iff.mpr fun key _ => ?_
    unfold overrideDecision?
    rw [fixedParams_reauthor r h]
    cases key <;> rfl
  have hdefaults : defaultDecisions catalog (resolve catalog r).reauthor = [] := by
    have hsome : ¬ (resolvedParams catalog r).isEmpty := by
      intro hempty
      have hnone := (ParamRecord.isEmpty_iff _).mp hempty .zeta
      have hzeta := (ParamRecord.isComplete_iff _).mp hcomplete .zeta
      rw [hnone] at hzeta
      cases hzeta
    unfold defaultDecisions
    rw [userParams_resolve r h]
    simp only [hsome, hcomplete, if_false, if_true, Bool.false_eq_true]
  rw [decisions, hoperator, hoverrides, hdefaults]
  rfl

end WellFormed
end Relation

/-! ### Constraints -/

theorem fieldsSortedById_twice (fields : Json.Fields) :
    fieldsSortedById (fieldsSortedById fields) = fieldsSortedById fields := by
  unfold fieldsSortedById
  rw [List.map_map]
  refine List.map_congr_left fun field _ => ?_
  show (field.1, field.2.sortById.sortById) = _
  rw [Json.sortById_sortById]

theorem Constraint.resolve_resolve (c : Constraint) : c.resolve.resolve = c.resolve := by
  unfold resolve
  simp only [fieldsSortedById_twice]

/-! ### Models -/

namespace AuthoredModel

variable {catalog : Catalog} (m : AuthoredModel) (h : catalog.WellFormed)
include h

/-- **Resolving a resolved model changes nothing.** -/
theorem resolve_reauthor : (m.resolve catalog).reauthor.resolve catalog = m.resolve catalog := by
  have hrelations : ((m.resolve catalog).relations.map Relation.reauthor).map
      (Relation.resolve catalog) = (m.resolve catalog).relations := by
    rw [List.map_map]
    refine (List.map_congr_left fun r hr => ?_).trans (List.map_id _)
    obtain ⟨authored, -, rfl⟩ := mem_relations_resolve.mp hr
    exact authored.resolve_reauthor h
  have hconstraints : (m.resolve catalog).constraints.map Constraint.resolve =
      (m.resolve catalog).constraints := by
    refine (List.map_congr_left fun c hc => ?_).trans (List.map_id _)
    obtain ⟨authored, -, rfl⟩ := mem_constraints_resolve.mp hc
    exact authored.resolve_resolve
  have hintervals : sortOn Interval.id (m.resolve catalog).intervals =
      (m.resolve catalog).intervals := sortOn_sortOn ..
  show Model.mk _ _ _ _ (sortOn Interval.id (m.resolve catalog).intervals)
    (sortOn Relation.id (((m.resolve catalog).relations.map Relation.reauthor).map _))
    (sortOn Constraint.id ((m.resolve catalog).constraints.map _)) _ _ = _
  rw [hintervals, hrelations, hconstraints]
  show Model.mk _ _ _ _ _ (sortOn Relation.id (sortOn Relation.id _))
    (sortOn Constraint.id (sortOn Constraint.id _)) _ _ = _
  rw [sortOn_sortOn, sortOn_sortOn]
  rfl

/-- **And there is nothing to explain.** -/
theorem trail_reauthor : (m.resolve catalog).reauthor.trail catalog = [] := by
  have hnothing : (m.resolve catalog).reauthor.relations.flatMap
      (Relation.explanations catalog) = [] := by
    refine List.flatMap_eq_nil_iff.mpr fun r hr => ?_
    obtain ⟨resolved, hresolved, rfl⟩ := List.mem_map.mp hr
    obtain ⟨authored, -, rfl⟩ := mem_relations_resolve.mp hresolved
    rw [Relation.explanations, authored.decisions_reauthor h, List.map_nil]
  rw [trail, hnothing]
  rfl

end AuthoredModel

/-! ### Any model, any catalog -/

/-- **Resolution is idempotent.** Whatever the model, sound or not, and whatever the catalog:
what it resolves to, written down as an author would, resolves to itself with nothing to
explain. -/
theorem resolution_idempotent (catalog : Catalog) (hload : catalog.Loadable) (m : AuthoredModel) :
    (m.resolve catalog).reauthor.resolve catalog = m.resolve catalog ∧
      (m.resolve catalog).reauthor.trail catalog = [] :=
  ⟨m.resolve_reauthor hload.wellFormed, m.trail_reauthor hload.wellFormed⟩

/-- Three operators in a ring: the code of each is the id of the next one. -/
def crossedFile : Catalog.File :=
  let zero : Json := .number (.ofUInt64 0)
  let bounds : Json.Fields := [("delta", .string "∞"), ("epsilon", .string "∞"),
    ("eta", .string "<"), ("rho", zero), ("zeta", .string "<")]
  { parameterDefaults := bounds
    operators := [
      { kind := .base, id := "a", code := "b", defaults := bounds },
      { kind := .base, id := "b", code := "c", defaults := bounds },
      { kind := .derived, id := "c", code := "a"
        mapsTo := some { target := "b", fixed := [("delta", zero)] } }] }

def crossedCatalog : Catalog := crossedFile.load.toOption.getD Catalog.embedded

/-- A model that no review lets pass: unknown operators, values that cannot be read, ids that are
used twice, and named things within a payload that are out of order. -/
def unrulyModel : AuthoredModel :=
  let named (id : String) (inner : Json) : Json := .object [("id", .string id), ("inner", inner)]
  let relation (operator : String) (params : AuthoredParams) : Relation (Option AuthoredParams) :=
    { id := "r", left := "nowhere", right := "x", operator, params := some params
      constraintIds := ["k", "missing"] }
  { schemaVersion := "0", id := ""
    intervals := [{ id := "y", start := 2, stop := 1, predicate := { name := "" } },
      { id := "x", start := 0, stop := 0, predicate := { name := "p" } }]
    relations := [relation "c" {}, relation "unknown" { latin := { zeta := some .null } },
      relation "a" { greek := { delta := some (.number (.ofUInt64 7)) } }]
    constraints := [
      { id := "k", kind := .other "odd"
        payload := [("items", .array [named "2" .null,
          named "1" (.array [named "b" .null, named "a" .null])])] },
      { id := "j", kind := .note }] }

theorem crossedCatalog_loadable : crossedCatalog.Loadable :=
  Catalog.File.loadable_getD (by decide +kernel) Catalog.embedded

theorem unrulyModel_idempotent :
    crossedCatalog.Loadable ∧ (unrulyModel.trail crossedCatalog).length = 5 ∧
      (unrulyModel.resolve crossedCatalog).reauthor.resolve crossedCatalog =
        unrulyModel.resolve crossedCatalog ∧
      (unrulyModel.resolve crossedCatalog).reauthor.trail crossedCatalog = [] := by
  have htrail : (unrulyModel.trail crossedCatalog).length = 5 := by decide +kernel
  exact ⟨crossedCatalog_loadable, htrail,
    resolution_idempotent crossedCatalog crossedCatalog_loadable unrulyModel⟩

end EventPattern
