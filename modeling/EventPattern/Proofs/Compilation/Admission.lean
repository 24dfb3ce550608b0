import EventPattern.Proofs.Compilation.ResolvedValues

/-! Which operator vouches for a resolved relation.

A resolved relation is written under its base operator, which need not allow what the relation
holds: an alias has domains and flags of its own, and what its author writes is checked against
these (`loosePattern_outside_base`). `resolved_admitted` says who vouches for what: the
operator that is named for the values that come with it and for the constraints, the base
operator for the defaults. So where the named operator allows no more than its base, the base
operator allows everything. -/
namespace EventPattern

/-- Whatever `narrow` admits, `wide` admits too. -/
def Domains.Within (narrow wide : Domains) : Prop :=
  ∀ (kind : ParamKind) (value : kind.Value), narrow.admits kind value = true →
    wide.admits kind value = true

def Compatibility.Within (narrow wide : Compatibility) : Prop :=
  ∀ kind, narrow.supports kind = true → wide.supports kind = true

/-- What is known of an accepted relation, its named operator and the base operator behind it. -/
structure Relation.Vouched (catalog : Catalog) (m : ResolvedModel)
    (r : Relation (Option AuthoredParams)) (op base : Operator) : Prop where
  named : catalog.lookup? r.operator = some op
  behind : catalog.base? op = some base ∧ base.aliasOf = none
  written : (r.resolve catalog).operator = base.code
  complete : ∀ key, ((r.resolve catalog).params.get key).isSome
  own : ∀ key value, IsOwn catalog r key → (r.resolve catalog).params.get key = some value →
    op.domains.admits key.kind value = true
  default : ∀ key value, ¬ IsOwn catalog r key → (r.resolve catalog).params.get key = some value →
    base.domains.admits key.kind value = true
  constraints : ∀ id ∈ r.constraintIds, ∃ c, m.constraint? id = some c ∧
    op.compatibility.supports c.kind = true

namespace Relation

variable {catalog : Catalog} {r : Relation (Option AuthoredParams)} {op base : Operator}

theorem Admitted.vouched {model : AuthoredModel} {ids : List String} (h : catalog.WellFormed)
    (hr : r.Proper ids) (hop : r.Admitted model catalog op) :
    ∃ base, r.Vouched catalog (model.resolve catalog) op base := by
  obtain ⟨base, hbase, hmem, hnone⟩ := r.base?_of_lookup? h hop.operator
  have hbehind : catalog.base? op = some base := by
    rw [base?, hop.operator, Option.bind_some] at hbase
    exact hbase
  have hconstraints : ∀ id ∈ r.constraintIds, ∃ c, (model.resolve catalog).constraint? id = some c ∧
      op.compatibility.supports c.kind = true := by
    intro id hid
    obtain ⟨c, hc⟩ := Option.isSome_iff_exists.mp
      ((model.constraint?_isSome id).mpr (hop.constraints id hid))
    refine ⟨c.resolve, ?_, hop.supported id hid c hc⟩
    rw [AuthoredModel.constraint?_resolve, hc, Option.map_some]
  exact ⟨base, {
    named := hop.operator
    behind := ⟨hbehind, hnone⟩
    written := by
      show r.resolvedOperator catalog = base.code
      rw [resolvedOperator, hbase]
      rfl
    complete := (ParamRecord.isComplete_iff _).mp (r.isComplete_resolvedParams h)
    own := fun key value hown hget => hop.admits_own h hr hown hget
    default := fun key value hother hget => admits_default h hbase hother hget
    constraints := hconstraints }⟩

variable {m : ResolvedModel}

/-- Where the named operator admits no more than its base, the base admits every value. -/
theorem Vouched.admits_base (hr : r.Vouched catalog m op base)
    (hwithin : op.domains.Within base.domains) {key : ParamKey} {value : key.Value}
    (hget : (r.resolve catalog).params.get key = some value) :
    base.domains.admits key.kind value = true := by
  by_cases hown : IsOwn catalog r key
  · exact hwithin key.kind value (hr.own key value hown hget)
  · exact hr.default key value hown hget

theorem Vouched.supports_base (hr : r.Vouched catalog m op base)
    (hwithin : op.compatibility.Within base.compatibility) {id : String}
    (hid : id ∈ r.constraintIds) :
    ∃ c, m.constraint? id = some c ∧ base.compatibility.supports c.kind = true := by
  obtain ⟨c, hc, hsupports⟩ := hr.constraints id hid
  exact ⟨c, hc, hwithin c.kind hsupports⟩

end Relation

/-- **Who vouches for a resolved relation.** Every relation of an accepted model comes of a
relation of the document, has a value for each parameter, and is vouched for: by the operator
that its author names for what the author gives, what this operator fixes and the constraints,
by the base operator for the defaults. If the named operator allows no more than its base, the
base operator admits every value, and likewise it supports every constraint. -/
theorem resolved_admitted (catalog : Catalog) (input : Json) (hload : catalog.Loadable)
    (haccepted : (compile catalog input).isAccepted) :
    ∃ doc m, Document.check input = .ok doc ∧ (compile catalog input).resolved = some m ∧
      ∀ resolved ∈ m.relations, ∃ r ∈ doc.model.relations, resolved = r.resolve catalog ∧
        ∃ op base, r.Vouched catalog m op base ∧
          (op.domains.Within base.domains → ∀ key value, resolved.params.get key = some value →
            base.domains.admits key.kind value = true) ∧
          (op.compatibility.Within base.compatibility → ∀ id ∈ resolved.constraintIds,
            ∃ c, m.constraint? id = some c ∧ base.compatibility.supports c.kind = true) := by
  obtain ⟨doc, hcheck, hproper, hadmitted, hcompile⟩ := of_isAccepted haccepted
  refine ⟨doc, doc.model.resolve catalog, hcheck, by rw [hcompile], fun resolved hresolved => ?_⟩
  obtain ⟨r, hr, rfl⟩ := AuthoredModel.mem_relations_resolve.mp hresolved
  obtain ⟨op, hop⟩ := hadmitted r hr
  obtain ⟨base, hvouched⟩ := hop.vouched hload.wellFormed (hproper.relation r hr)
  refine ⟨r, hr, rfl, op, base, hvouched, fun hwithin key value hget => ?_,
    fun hwithin id hid => ?_⟩
  · exact hvouched.admits_base hwithin hget
  · exact hvouched.supports_base hwithin hid

/-! ### An alias that allows more than its base operator -/

/-- A base operator for `<` alone, and an alias of it that allows everything. -/
def looseFile : Catalog.File :=
  let bounds : Json.Fields := [("delta", .string "∞"), ("epsilon", .string "∞"),
    ("eta", .string "<"), ("rho", .number (.ofUInt64 0)), ("zeta", .string "<")]
  { parameterDefaults := bounds
    operators := [
      { kind := .base, id := "bef", code := "Bef", defaults := bounds
        domains := { comparators := [.less] } },
      { kind := .derived, id := "loose", code := "Loose", compatibility := { cardinality := true }
        mapsTo := some { target := "bef" } }] }

def looseCatalog : Catalog := looseFile.load.toOption.getD Catalog.embedded

/-- The alias is used for `>`, and with a constraint that its base operator does not support. -/
def loosePattern : Json :=
  let interval (id : String) : Json :=
    .object [("end", .number (.ofUInt64 1)), ("id", .string id),
      ("predicate", .object [("name", .string "p")]), ("start", .number (.ofUInt64 0))]
  .object [("constraints", .object [
      ("extra", .array [.object [("id", .string "c"), ("kind", .string "cardinality")]]),
      ("temporal", .array [.object [("constraintIds", .array [.string "c"]),
        ("id", .string "r"), ("leftIntervalId", .string "a"), ("operatorKey", .string "Loose"),
        ("params", .object [("zeta", .string ">")]), ("rightIntervalId", .string "b")]])]),
    ("id", .string "m"), ("intervals", .array [interval "a", interval "b"]),
    ("name", .string "M"), ("schemaVersion", .string "1")]

theorem looseCatalog_loadable : looseCatalog.Loadable :=
  Catalog.File.loadable_getD (by decide +kernel) Catalog.embedded

theorem loosePattern_vouched :
    looseCatalog.Loadable ∧ (compile looseCatalog loosePattern).isAccepted ∧
      ∃ m, (compile looseCatalog loosePattern).resolved = some m ∧
        ∀ resolved ∈ m.relations, ∃ (r : Relation (Option AuthoredParams)) (op base : Operator),
          resolved = r.resolve looseCatalog ∧ r.Vouched looseCatalog m op base := by
  have haccepted : (compile looseCatalog loosePattern).isAccepted := by decide +kernel
  obtain ⟨_, m, -, hm, hrelations⟩ :=
    resolved_admitted looseCatalog loosePattern looseCatalog_loadable haccepted
  refine ⟨looseCatalog_loadable, haccepted, m, hm, fun resolved hresolved => ?_⟩
  obtain ⟨r, -, hr, op, base, hvouched, -, -⟩ := hrelations resolved hresolved
  exact ⟨r, op, base, hr, hvouched⟩

/-- Neither the value nor the constraint is allowed by the operator the relation ends up
under. -/
theorem loosePattern_outside_base :
    looseCatalog.Loadable ∧ (compile looseCatalog loosePattern).isAccepted ∧
      ∃ m, (compile looseCatalog loosePattern).resolved = some m ∧
        ∃ resolved ∈ m.relations, ∃ base ∈ looseCatalog.operators,
          base.code = resolved.operator ∧ base.aliasOf = none ∧
          resolved.params.zeta = some .greater ∧
          base.domains.admits .comparator .greater = false ∧
          ∃ c, m.constraint? "c" = some c ∧ "c" ∈ resolved.constraintIds ∧
            base.compatibility.supports c.kind = false := by
  have haccepted : (compile looseCatalog loosePattern).isAccepted := by decide +kernel
  have hfails : (compile looseCatalog loosePattern).resolved.any (fun m =>
      m.relations.any fun resolved => looseCatalog.operators.any fun base =>
        base.code = resolved.operator ∧ base.aliasOf = none ∧
        resolved.params.zeta = some .greater ∧
        base.domains.admits .comparator .greater = false ∧
        (m.constraint? "c").any fun c =>
          "c" ∈ resolved.constraintIds ∧ base.compatibility.supports c.kind = false) := by
    decide +kernel
  simp only [Option.any_eq_true, List.any_eq_true, decide_eq_true_eq] at hfails
  obtain ⟨m, hm, resolved, hresolved, base, hbase, hcode, hnone, hzeta, hadmits, c, hc, hid,
    hsupports⟩ := hfails
  exact ⟨looseCatalog_loadable, haccepted, m, hm, resolved, hresolved, base, hbase, hcode, hnone,
    hzeta, hadmits, c, hc, hid, hsupports⟩

end EventPattern
