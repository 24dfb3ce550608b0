import EventPattern.Proofs.Compilation.Acceptance
import EventPattern.Proofs.Resolution.Layers

/-! What the catalog allowed of a resolved model.

An accepted relation is written under its base operator, but it was checked against the
operator that its author names, which may be an alias with domains and flags of its own. What
the author gives and what the alias fixes is admitted there, a default by the base operator
(`Relation.Admitted.admits_own`, `Relation.admits_default`). Where the alias allows the same as
its base operator, there is no difference (`Catalog.AliasesAgree`). -/
namespace EventPattern

/-- Every alias has the domains and the flags of its base operator. -/
def Catalog.AliasesAgree (c : Catalog) : Prop :=
  ∀ op ∈ c.operators, ∀ base ∈ c.base? op,
    op.domains = base.domains ∧ op.compatibility = base.compatibility

instance (c : Catalog) : Decidable c.AliasesAgree :=
  inferInstanceAs (Decidable (∀ op ∈ c.operators, ∀ base ∈ c.base? op,
    op.domains = base.domains ∧ op.compatibility = base.compatibility))

theorem Catalog.embedded_aliasesAgree : embedded.AliasesAgree := by decide +kernel

namespace Relation

/-! ### Values -/

/-- The parameter comes with the operator that is named: from the author or from the alias. -/
def IsOwn (catalog : Catalog) (r : Relation (Option AuthoredParams)) (key : ParamKey) : Prop :=
  (r.authored key).isSome ∨ ((fixedParams catalog r).get key).isSome

variable {catalog : Catalog} {model : AuthoredModel} {r : Relation (Option AuthoredParams)}
  {op base : Operator} {key : ParamKey} {value : key.Value}

/-- What an alias fixes is in its domains. -/
theorem admits_fixed (h : catalog.WellFormed) (hlookup : catalog.lookup? r.operator = some op)
    (hget : (fixedParams catalog r).get key = some value) :
    op.domains.admits key.kind value = true := by
  unfold fixedParams at hget
  rw [hlookup, Option.bind_some] at hget
  cases halias : op.aliasOf with
  | none =>
    rw [halias] at hget
    cases key <;> cases hget
  | some link =>
    rw [halias] at hget
    exact ((h.operators op (Catalog.mem_of_lookup? hlookup)).fixed link halias).2 key value hget

theorem Admitted.admits_own {ids : List String} (h : catalog.WellFormed) (hr : r.Proper ids)
    (hop : r.Admitted model catalog op) (hown : IsOwn catalog r key)
    (hget : (resolvedParams catalog r).get key = some value) :
    op.domains.admits key.kind value = true := by
  cases hauthored : r.authored key with
  | some raw =>
    obtain ⟨read, hread⟩ := Option.isSome_iff_exists.mp (hr.authored_readable hauthored)
    rw [get_of_authored catalog r hauthored hread] at hget
    cases hget
    exact hop.values key raw value hauthored hread
  | none =>
    rcases hown with hsome | hsome
    · rw [hauthored] at hsome
      cases hsome
    · obtain ⟨fixed, hfixed⟩ := Option.isSome_iff_exists.mp hsome
      rw [get_of_fixed catalog r hauthored hfixed] at hget
      cases hget
      exact admits_fixed h hop.operator hfixed

theorem admits_default (h : catalog.WellFormed) (hbase : base? catalog r = some base)
    (hother : ¬ IsOwn catalog r key) (hget : (resolvedParams catalog r).get key = some value) :
    base.domains.admits key.kind value = true := by
  obtain ⟨hauthored, hfixed⟩ := not_or.mp hother
  rw [get_of_base r h (Option.not_isSome_iff_eq_none.mp hauthored)
    (Option.not_isSome_iff_eq_none.mp hfixed) hbase] at hget
  exact (h.operators base (base?_mem r h hbase).1).admitted key value hget

/-! ### Aliases that agree with their base -/

theorem base_agrees (hagree : catalog.AliasesAgree)
    (hlookup : catalog.lookup? r.operator = some op) (hbase : base? catalog r = some base) :
    op.domains = base.domains ∧ op.compatibility = base.compatibility := by
  refine hagree op (Catalog.mem_of_lookup? hlookup) base ?_
  rw [base?, hlookup, Option.bind_some] at hbase
  exact hbase

/-- Then the base operator admits every value of the resolved relation. -/
theorem Admitted.admits_base {ids : List String} (h : catalog.WellFormed)
    (hagree : catalog.AliasesAgree) (hr : r.Proper ids) (hop : r.Admitted model catalog op)
    (hbase : base? catalog r = some base)
    (hget : (resolvedParams catalog r).get key = some value) :
    base.domains.admits key.kind value = true := by
  by_cases hown : IsOwn catalog r key
  · rw [← (base_agrees hagree hop.operator hbase).1]
    exact hop.admits_own h hr hown hget
  · exact admits_default h hbase hown hget

end Relation

end EventPattern
