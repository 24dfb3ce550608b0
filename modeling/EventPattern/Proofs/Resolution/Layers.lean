import EventPattern.Proofs.Catalog.WellFormed
import EventPattern.Resolution

/-! The layers of a resolved relation.

Each parameter of a resolved relation comes from the topmost layer that has it
(`get_resolvedParams`). In a loaded catalog all layers hold readable values and the lowest one
is complete, so a resolved relation always has all parameters, and they survive being written
out. The operator it is written under names the base operator itself. -/
namespace EventPattern.Relation

variable (catalog : Catalog) (r : Relation (Option AuthoredParams))

/-! ### Parameters -/

theorem get_userParams (key : ParamKey) :
    (userParams r).get key = (r.authored key).bind key.kind.read? := by
  unfold userParams authored
  cases r.params with
  | none => cases key <;> rfl
  | some params => exact params.get_normalize key

/-- The defaults of the base operator, when there is one. -/
def baseDefaults : TypedParams := ((base? catalog r).map (·.defaults)).getD {}

/-- **The topmost layer counts**: the author, the alias, the base operator, the catalog. -/
theorem get_resolvedParams (key : ParamKey) :
    (resolvedParams catalog r).get key =
      ((userParams r).get key).or (((fixedParams catalog r).get key).or
        (((baseDefaults catalog r).get key).or (catalog.defaults.get key))) := by
  unfold resolvedParams baseDefaults
  simp only [ParamRecord.get_overlay]

theorem get_of_authored {key : ParamKey} {raw : Json} {value : key.Value}
    (hauthored : r.authored key = some raw) (hread : key.kind.read? raw = some value) :
    (resolvedParams catalog r).get key = some value := by
  rw [get_resolvedParams, get_userParams, hauthored, Option.bind_some, hread, Option.some_or]

theorem get_of_fixed {key : ParamKey} {value : key.Value} (hauthored : r.authored key = none)
    (hfixed : (fixedParams catalog r).get key = some value) :
    (resolvedParams catalog r).get key = some value := by
  rw [get_resolvedParams, get_userParams, hauthored, Option.bind_none, hfixed, Option.some_or,
    Option.none_or]

variable {catalog r} in
/-- The base operator behind a relation is the one behind the operator it names. -/
theorem base?_of_named {op : Operator} (hlookup : catalog.lookup? r.operator = some op) :
    base? catalog r = catalog.base? op := by
  rw [base?, hlookup, Option.bind_some]

theorem readable_userParams : (userParams r).Readable := by
  unfold userParams
  cases r.params with
  | none => exact TypedParams.readable_empty
  | some params => exact params.readable_normalize

section WellFormed
variable {catalog} (h : catalog.WellFormed)
include h

theorem readable_fixedParams : (fixedParams catalog r).Readable := by
  unfold fixedParams
  cases hlookup : catalog.lookup? r.operator with
  | none => exact TypedParams.readable_empty
  | some op =>
    cases halias : op.aliasOf with
    | none =>
      rw [Option.bind_some, halias]
      exact TypedParams.readable_empty
    | some link =>
      rw [Option.bind_some, halias]
      exact ((h.operators op (Catalog.mem_of_lookup? hlookup)).fixed link halias).1

/-- Behind a known operator there is a base operator. -/
theorem base?_of_lookup? {op : Operator} (hlookup : catalog.lookup? r.operator = some op) :
    ∃ base, base? catalog r = some base ∧ base ∈ catalog.operators ∧ base.aliasOf = none := by
  obtain ⟨base, hbase, hmem, hnone⟩ := h.base?_eq_some (Catalog.mem_of_lookup? hlookup)
  refine ⟨base, ?_, hmem, hnone⟩
  rw [base?, hlookup, Option.bind_some, hbase]

theorem base?_mem {base : Operator} (hbase : base? catalog r = some base) :
    base ∈ catalog.operators ∧ base.aliasOf = none := by
  obtain ⟨op, hlookup, -⟩ := Option.bind_eq_some_iff.mp hbase
  obtain ⟨found, hfound, hmem, hnone⟩ := base?_of_lookup? r h hlookup
  rw [hbase] at hfound
  cases hfound
  exact ⟨hmem, hnone⟩

theorem readable_baseDefaults : (baseDefaults catalog r).Readable := by
  unfold baseDefaults
  cases hbase : base? catalog r with
  | none => exact TypedParams.readable_empty
  | some base => exact (h.operators base (base?_mem r h hbase).1).readable

theorem readable_resolvedParams : (resolvedParams catalog r).Readable :=
  ((h.readable.overlay (readable_baseDefaults r h)).overlay (readable_fixedParams r h)).overlay
    (readable_userParams r)

/-- **A resolved relation has all parameters.** -/
theorem isComplete_resolvedParams : (resolvedParams catalog r).isComplete := by
  refine (ParamRecord.isComplete_iff _).mpr fun key => ?_
  have hdefault := (ParamRecord.isComplete_iff _).mp h.complete key
  rw [get_resolvedParams, Option.isSome_or, Option.isSome_or, Option.isSome_or, hdefault]
  simp only [Bool.or_true]

/-- The defaults of a base operator are complete, so those of the catalog never show. -/
theorem get_of_base {base : Operator} {key : ParamKey} (hauthored : r.authored key = none)
    (hfixed : (fixedParams catalog r).get key = none) (hbase : base? catalog r = some base) :
    (resolvedParams catalog r).get key = base.defaults.get key := by
  obtain ⟨hmem, hnone⟩ := base?_mem r h hbase
  have hcomplete := (h.operators base hmem).complete hnone
  obtain ⟨value, hvalue⟩ := Option.isSome_iff_exists.mp
    ((ParamRecord.isComplete_iff _).mp hcomplete key)
  rw [get_resolvedParams, get_userParams, hauthored, Option.bind_none, hfixed, baseDefaults, hbase,
    Option.map_some, Option.getD_some, hvalue, Option.some_or, Option.none_or, Option.none_or]

/-! ### Operators -/

/-- What a resolved relation is written under names the base operator. -/
theorem lookup?_resolvedOperator :
    catalog.lookup? (resolvedOperator catalog r) = base? catalog r := by
  unfold resolvedOperator
  cases hlookup : catalog.lookup? r.operator with
  | none =>
    have hbase : base? catalog r = none := by rw [base?, hlookup, Option.bind_none]
    rw [hbase]
    exact hlookup
  | some op =>
    obtain ⟨base, hbase, hmem, -⟩ := base?_of_lookup? r h hlookup
    rw [hbase]
    exact h.lookup?_code hmem

end WellFormed
end EventPattern.Relation

/-! ### What a resolved model consists of -/

namespace EventPattern.AuthoredModel

variable {m : AuthoredModel} {catalog : Catalog}

theorem mem_relations_resolve {r : Relation TypedParams} :
    r ∈ (m.resolve catalog).relations ↔
      ∃ authored ∈ m.relations, authored.resolve catalog = r := by
  unfold resolve
  rw [mem_sortOn, List.mem_map]

theorem mem_constraints_resolve {c : Constraint} :
    c ∈ (m.resolve catalog).constraints ↔ ∃ authored ∈ m.constraints, authored.resolve = c := by
  unfold resolve
  rw [mem_sortOn, List.mem_map]

variable (m catalog)

/-- Resolving a model moves its intervals, and nothing else happens to them. -/
theorem intervals_resolve_perm : (m.resolve catalog).intervals.Perm m.intervals :=
  sortOn_perm Interval.id m.intervals

theorem ids_resolve_perm :
    ((m.resolve catalog).intervals.map (·.id)).Perm (m.intervals.map (·.id)) :=
  (m.intervals_resolve_perm catalog).map _

/-- The first interval of an id stays the first one. -/
theorem find?_intervals_resolve (id : String) :
    (m.resolve catalog).intervals.find? (·.id == id) = m.intervals.find? (·.id == id) :=
  find?_sortOn Interval.id id m.intervals

/-- The first relation of an id stays the first one. -/
theorem find?_relations_resolve (id : String) :
    (m.resolve catalog).relations.find? (·.id == id) =
      (m.relations.find? (·.id == id)).map (Relation.resolve catalog) := by
  show (sortOn Relation.id (m.relations.map (Relation.resolve catalog))).find? (·.id == id) = _
  rw [find?_sortOn Relation.id id, List.find?_map]
  rfl

/-- The first constraint of an id stays the first one. -/
theorem find?_constraints_resolve (id : String) :
    (m.resolve catalog).constraints.find? (·.id == id) =
      (m.constraints.find? (·.id == id)).map Constraint.resolve := by
  show (sortOn Constraint.id (m.constraints.map Constraint.resolve)).find? (·.id == id) = _
  rw [find?_sortOn Constraint.id id, List.find?_map]
  rfl

theorem interval?_resolve (id : String) :
    (m.resolve catalog).interval? id = m.interval? id :=
  m.find?_intervals_resolve catalog id

theorem relation?_resolve (id : String) :
    (m.resolve catalog).relation? id = (m.relation? id).map (Relation.resolve catalog) :=
  m.find?_relations_resolve catalog id

theorem constraint?_resolve (id : String) :
    (m.resolve catalog).constraint? id = (m.constraint? id).map Constraint.resolve :=
  m.find?_constraints_resolve catalog id

end EventPattern.AuthoredModel
