import EventPattern.Iseql.Text
import EventPattern.Proofs.Resolution.Twice

/-! Doing without aliases.

An alias stands for its base operator with some parameters fixed. `Relation.spelledOut` says the
same in full: it names the base operator by its code, and what the alias fixes is given there as
if the author had written it, below what the author gives. The fixed values so pass from the
catalog's layers to the author's, and no layer lies between the two. Hence the relation
resolves as before (`resolve_spelledOut`), and since a model is resolved relation by relation
(`resolve_setRelation`), so does a model, of which the text is then the same
(`aliases_eliminated`). -/
namespace EventPattern

/-- The parameters that an operator fixes: none, unless it is an alias. -/
def Operator.fixedParams (op : Operator) : TypedParams := (op.aliasOf.map (·.fixed)).getD {}

theorem Operator.fixedParams_of_base {op : Operator} (h : op.aliasOf = none) :
    op.fixedParams = {} := by
  rw [fixedParams, h, Option.map_none, Option.getD_none]

namespace Relation

/-- The relation in terms of the base operator `base` that stands behind its operator `op`. -/
def spelledOut (op base : Operator) (r : Relation (Option AuthoredParams)) :
    Relation (Option AuthoredParams) :=
  { r with
    operator := base.code
    params := some (.ofTyped (op.fixedParams.overlay (userParams r))) }

variable {catalog : Catalog} {r : Relation (Option AuthoredParams)} {op base : Operator}

/-! ### One relation -/

theorem fixedParams_of_lookup? (hop : catalog.lookup? r.operator = some op) :
    fixedParams catalog r = op.fixedParams := by
  rw [fixedParams, hop, Option.bind_some, Operator.fixedParams]

/-- A base operator fixes nothing, so only what the author gives is left. -/
theorem spelledOut_params_of_base (h : op.aliasOf = none) :
    (r.spelledOut op base).params = some (.ofTyped (userParams r)) := by
  have hnothing : ParamRecord.overlay {} (userParams r) = userParams r := by
    refine ParamRecord.ext_get fun key => ?_
    rw [ParamRecord.get_overlay]
    cases key <;> exact Option.or_none
  show some (AuthoredParams.ofTyped (op.fixedParams.overlay (userParams r))) = _
  rw [op.fixedParams_of_base h, hnothing]

section WellFormed
variable (h : catalog.WellFormed)
include h

theorem userParams_spelledOut (hop : catalog.lookup? r.operator = some op) :
    userParams (r.spelledOut op base) = (fixedParams catalog r).overlay (userParams r) := by
  rw [fixedParams_of_lookup? hop]
  refine AuthoredParams.normalize_ofTyped (TypedParams.Readable.overlay ?_ (readable_userParams r))
  rw [← fixedParams_of_lookup? hop]
  exact readable_fixedParams r h

/-- **A relation that is spelled out is resolved as before.** -/
theorem resolve_spelledOut (hop : catalog.lookup? r.operator = some op)
    (hbase : catalog.base? op = some base) :
    (r.spelledOut op base).resolve catalog = r.resolve catalog := by
  have hbehind : base? catalog r = some base := (base?_of_named hop).trans hbase
  obtain ⟨hmem, hnone⟩ := base?_mem r h hbehind
  have hlookup : catalog.lookup? (r.spelledOut op base).operator = some base :=
    h.lookup?_code hmem
  have hself : base? catalog (r.spelledOut op base) = some base := by
    rw [base?_of_named hlookup, Catalog.base?, hnone]
  have hoperator : resolvedOperator catalog (r.spelledOut op base) =
      resolvedOperator catalog r := by
    rw [resolvedOperator, hself, resolvedOperator, hbehind]
    rfl
  have hparams : resolvedParams catalog (r.spelledOut op base) = resolvedParams catalog r := by
    refine ParamRecord.ext_get fun key => ?_
    have hfixed : (fixedParams catalog (r.spelledOut op base)).get key = none := by
      rw [fixedParams_of_lookup? hlookup, base.fixedParams_of_base hnone]
      cases key <;> rfl
    have hdefaults : baseDefaults catalog (r.spelledOut op base) = baseDefaults catalog r := by
      rw [baseDefaults, hself, baseDefaults, hbehind]
    -- What the alias fixes moves from the second layer to the first.
    rw [get_resolvedParams, get_resolvedParams, userParams_spelledOut h hop, hfixed, hdefaults,
      ParamRecord.get_overlay, Option.none_or, Option.or_assoc]
  show Relation.mk _ _ _ _ _ _ _ = Relation.mk _ _ _ _ _ _ _
  rw [hoperator, hparams]
  rfl

/-- By which of its names an operator is called makes no difference: spelled out, it is the same. -/
theorem resolve_rename {reference : String} (hop : catalog.lookup? r.operator = some op)
    (hreference : catalog.lookup? reference = some op) :
    Relation.resolve catalog { r with operator := reference } = r.resolve catalog := by
  obtain ⟨base, hbase, -, -⟩ := h.base?_eq_some (Catalog.mem_of_lookup? hop)
  have hrenamed := resolve_spelledOut (r := { r with operator := reference }) h hreference hbase
  exact hrenamed.symm.trans (resolve_spelledOut h hop hbase)

end WellFormed
end Relation

/-! ### One relation of a model -/

variable {catalog : Catalog} {m : AuthoredModel} {i : Nat} {r : Relation (Option AuthoredParams)}

/-- The model with another relation at a position. -/
def AuthoredModel.setRelation (m : AuthoredModel) (i : Nat)
    (r : Relation (Option AuthoredParams)) : AuthoredModel :=
  { m with relations := m.relations.set i r }

/-- A relation that is resolved to the same as the one whose place it takes leaves no trace. -/
theorem AuthoredModel.resolve_setRelation {other : Relation (Option AuthoredParams)}
    (hr : m.relations[i]? = some r) (h : other.resolve catalog = r.resolve catalog) :
    (m.setRelation i other).resolve catalog = m.resolve catalog := by
  have hrelations : (m.relations.set i other).map (Relation.resolve catalog) =
      m.relations.map (Relation.resolve catalog) := by
    obtain ⟨hlt, hget⟩ := List.getElem?_eq_some_iff.mp hr
    have hmapped : i < (m.relations.map (Relation.resolve catalog)).length := by
      rw [List.length_map]
      exact hlt
    rw [List.map_set, h, ← hget, ← List.getElem_map (Relation.resolve catalog) (h := hmapped),
      List.set_getElem_self]
  unfold resolve setRelation
  rw [hrelations]

/-- **Aliases can be done without.** In any model, sound or not, a relation whose operator is
known can be spelled out in terms of the base operator: it is named by its code, and given are the
values that the alias fixes under those of the author, just the author's where there is no alias.
The model is resolved to the same model and so has the same text. In particular it does not
matter by which of its names, code or id, an operator is called. -/
theorem aliases_eliminated (catalog : Catalog) (hload : catalog.Loadable) (m : AuthoredModel)
    {i : Nat} {r : Relation (Option AuthoredParams)} {op : Operator}
    (hr : m.relations[i]? = some r) (hop : catalog.lookup? r.operator = some op) :
    ∃ base, catalog.base? op = some base ∧ base.aliasOf = none ∧
      (op.aliasOf = none →
        (r.spelledOut op base).params = some (.ofTyped (Relation.userParams r))) ∧
      (m.setRelation i (r.spelledOut op base)).resolve catalog = m.resolve catalog ∧
      Iseql.text ((m.setRelation i (r.spelledOut op base)).resolve catalog) catalog =
        Iseql.text (m.resolve catalog) catalog ∧
      catalog.lookup? op.code = some op ∧
      ∀ reference, catalog.lookup? reference = some op →
        (m.setRelation i { r with operator := reference }).resolve catalog = m.resolve catalog := by
  have h := hload.wellFormed
  have hmem := Catalog.mem_of_lookup? hop
  obtain ⟨base, hbase, -, hnone⟩ := h.base?_eq_some hmem
  have hresolve : (m.setRelation i (r.spelledOut op base)).resolve catalog = m.resolve catalog :=
    AuthoredModel.resolve_setRelation hr (Relation.resolve_spelledOut h hop hbase)
  refine ⟨base, hbase, hnone, Relation.spelledOut_params_of_base, hresolve, by rw [hresolve],
    h.lookup?_code hmem, fun reference hreference => ?_⟩
  exact AuthoredModel.resolve_setRelation hr (Relation.resolve_rename h hop hreference)

/-- Its last relation is called by the code of an alias and gives what the alias fixes, under the
Greek spelling; the code of the base operator is another operator's id. -/
theorem unrulyModel_spelledOut :
    crossedCatalog.Loadable ∧ ∃ r op base, unrulyModel.relations[2]? = some r ∧
      crossedCatalog.lookup? r.operator = some op ∧ op.isAlias ∧
      crossedCatalog.base? op = some base ∧ (crossedCatalog.byId? base.code) = some op ∧
      (unrulyModel.setRelation 2 (r.spelledOut op base)).resolve crossedCatalog =
        unrulyModel.resolve crossedCatalog := by
  have hcrossed : (unrulyModel.relations[2]?).any (fun r =>
      (crossedCatalog.lookup? r.operator).any fun op => op.isAlias ∧
        (crossedCatalog.base? op).all fun base => crossedCatalog.byId? base.code = some op) := by
    decide +kernel
  simp only [Option.any_eq_true, Option.all_eq_true, decide_eq_true_eq] at hcrossed
  obtain ⟨r, hr, op, hop, halias, hbases⟩ := hcrossed
  obtain ⟨base, hbase, -, -, hresolve, -⟩ :=
    aliases_eliminated crossedCatalog crossedCatalog_loadable unrulyModel hr hop
  exact ⟨crossedCatalog_loadable, r, op, base, hr, hop, halias, hbase, hbases base hbase, hresolve⟩

end EventPattern
