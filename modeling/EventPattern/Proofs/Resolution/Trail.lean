import EventPattern.Proofs.Resolution.Layers

/-! The entries of a trail.

Every entry names the relation it is about, so where the relations of a model have different ids,
the entries on one of them are the decisions on it (`about_trail`). Of these there are three
kinds, each under rules of its own: on the operator, on what an alias fixes and on what the author
leaves out. For each kind it is said when there is a decision: when the operator is written
differently (`operatorDecisions_exact`), when a value differs from a fixed one
(`overrideDecision?_eq_some`) and when a value is missing (`defaultDecisions_exact`). -/
namespace EventPattern

/-! ### Kinds of decisions -/

namespace Decision

/-- What a decision is on. -/
inductive Kind where
  | operator
  | fixedValue
  | defaults
deriving DecidableEq

def Kind.rules : Kind → List String
  | operator => ["R-OP-ALIAS-TO-BASE", "R-OP-CODE-CANONICAL"]
  | fixedValue => ["R-PARAM-ALIAS-FIXED-OVERRIDDEN"]
  | defaults => ["R-PARAM-DEFAULTS-ALL", "R-PARAM-DEFAULTS-MISSING"]

def kind : Decision → Kind
  | aliasToBase _ _ | canonicalCode _ _ => .operator
  | fixedOverridden _ _ _ _ => .fixedValue
  | allDefaulted _ | missingFilled _ _ => .defaults

/-- A rule tells the kind of a decision. -/
theorem rule_mem_rules (d : Decision) (kind : Kind) : d.rule ∈ kind.rules ↔ d.kind = kind := by
  cases d <;> cases kind <;> simp [rule, Decision.kind, Kind.rules]

end Decision

namespace Relation

open Decision (Kind)

variable (catalog : Catalog) (r : Relation (Option AuthoredParams))

/-- The decisions of one kind on a relation. -/
def decisionsOf : Kind → List Decision
  | .operator => operatorDecisions catalog r
  | .fixedValue => ParamKey.all.filterMap (overrideDecision? catalog r)
  | .defaults => defaultDecisions catalog r

theorem decisions_eq : decisions catalog r =
    decisionsOf catalog r .operator ++ decisionsOf catalog r .fixedValue ++
      decisionsOf catalog r .defaults := rfl

theorem overrideDecision?_eq_some {key : ParamKey} {d : Decision} :
    overrideDecision? catalog r key = some d ↔
      ∃ fixed value, (fixedParams catalog r).get key = some fixed ∧
        (userParams r).get key = some value ∧ value ≠ fixed ∧
        d = .fixedOverridden r.operator key fixed value := by
  unfold overrideDecision?
  split
  · next fixed value hfixed hvalue =>
    rw [hfixed, hvalue]
    split
    · next hdiffers => simp [hdiffers, eq_comm]
    · next hsame => simp [not_not.mp hsame]
  · next hnone =>
    refine ⟨nofun, fun h => ?_⟩
    obtain ⟨fixed, value, hfixed, hvalue, -⟩ := h
    exact (hnone fixed value hfixed hvalue).elim

variable {catalog r} in
theorem kind_of_operatorDecision {d : Decision} (hd : d ∈ operatorDecisions catalog r) :
    d.kind = .operator := by
  unfold operatorDecisions at hd
  split at hd
  · split at hd
    · rw [List.mem_singleton.mp hd, Decision.kind]
    · split at hd
      · rw [List.mem_singleton.mp hd, Decision.kind]
      · cases hd
  · cases hd

variable {catalog r} in
theorem kind_of_defaultDecision {d : Decision} (hd : d ∈ defaultDecisions catalog r) :
    d.kind = .defaults := by
  unfold defaultDecisions at hd
  split at hd
  · rw [List.mem_singleton.mp hd, Decision.kind]
  · split at hd
    · cases hd
    · rw [List.mem_singleton.mp hd, Decision.kind]

theorem kind_of_mem_decisionsOf {kind : Kind} {d : Decision} (hd : d ∈ decisionsOf catalog r kind) :
    d.kind = kind := by
  cases kind with
  | operator => exact kind_of_operatorDecision hd
  | fixedValue =>
    obtain ⟨key, -, hkey⟩ := List.mem_filterMap.mp hd
    obtain ⟨fixed, value, -, -, -, rfl⟩ := (overrideDecision?_eq_some catalog r).mp hkey
    rfl
  | defaults => exact kind_of_defaultDecision hd

theorem filter_decisionsOf (own kind : Kind) :
    (decisionsOf catalog r own).filter (·.rule ∈ kind.rules) =
      if own = kind then decisionsOf catalog r own else [] := by
  split
  · next hsame =>
    refine List.filter_eq_self.mpr fun d hd => decide_eq_true ?_
    rw [d.rule_mem_rules, kind_of_mem_decisionsOf catalog r hd, hsame]
  · next hdiffers =>
    refine List.filter_eq_nil_iff.mpr fun d hd hrule => hdiffers ?_
    rw [← kind_of_mem_decisionsOf catalog r hd]
    exact (d.rule_mem_rules kind).mp (of_decide_eq_true hrule)

/-- The decisions under the rules of a kind are the ones of that kind. -/
theorem filter_decisions (kind : Kind) :
    (decisions catalog r).filter (·.rule ∈ kind.rules) = decisionsOf catalog r kind := by
  rw [decisions_eq, List.filter_append, List.filter_append, filter_decisionsOf,
    filter_decisionsOf, filter_decisionsOf]
  cases kind <;> simp

end Relation

/-! ### Entries on a target -/

namespace Explanation

/-- The entries on a target that are under the rules of a kind. -/
def about (trail : List Explanation) (target : String) (kind : Decision.Kind) :
    List Explanation :=
  trail.filter fun e => e.target = some target ∧ e.rule ∈ kind.rules

/-- The entry lists a parameter among the missing ones, which are in the order of the keys. -/
def Lists (e : Explanation) (key : ParamKey) : Prop :=
  ∃ keys : List ParamKey, keys.Sublist ParamKey.all ∧ key ∈ keys ∧
    e.details.get? "missingKeys" = some (.strings (keys.map ParamKey.latin))

end Explanation

/-- Where items are told apart, what there is to say of one of them is all that is said of it. -/
theorem flatMap_eq_of_distinct {α β κ : Type} {key : α → κ} {items : List α} {item : α}
    (hdistinct : (items.map key).Nodup) (hitem : item ∈ items) {f : α → List β}
    (hothers : ∀ other, key other ≠ key item → f other = []) : items.flatMap f = f item := by
  obtain ⟨before, after, rfl⟩ := List.append_of_mem hitem
  rw [List.map_append, List.map_cons, List.nodup_middle, List.nodup_cons, ← List.map_append]
    at hdistinct
  have hnothing : ∀ other ∈ before ++ after, f other = [] := fun other hother =>
    hothers other fun hsame => hdistinct.1 (hsame ▸ List.mem_map_of_mem hother)
  have hbefore : before.flatMap f = [] :=
    List.flatMap_eq_nil_iff.mpr fun other hother => hnothing other (List.mem_append_left _ hother)
  have hafter : after.flatMap f = [] :=
    List.flatMap_eq_nil_iff.mpr fun other hother => hnothing other (List.mem_append_right _ hother)
  rw [List.flatMap_append, List.flatMap_cons, hbefore, hafter, List.nil_append, List.append_nil]

namespace AuthoredModel

variable {m : AuthoredModel} {catalog : Catalog} {r : Relation (Option AuthoredParams)}

theorem pairwise_trail (m : AuthoredModel) (catalog : Catalog) :
    (m.trail catalog).Pairwise fun a b => a.sortKey ≤ b.sortKey :=
  pairwise_sortOn Explanation.sortKey _

/-- Every entry is a decision on a relation. -/
theorem decision_of_mem_trail {e : Explanation} (he : e ∈ m.trail catalog) :
    ∃ r ∈ m.relations, ∃ d ∈ r.decisions catalog, d.explain r.id = e := by
  obtain ⟨r, hr, hexplains⟩ := List.mem_flatMap.mp ((mem_sortOn Explanation.sortKey).mp he)
  exact ⟨r, hr, List.mem_map.mp hexplains⟩

/-- **The entries on a relation are the decisions on it.** -/
theorem about_trail (hdistinct : (m.relations.map (·.id)).Nodup) (hr : r ∈ m.relations)
    (kind : Decision.Kind) :
    Explanation.about (m.trail catalog) r.id kind =
      Explanation.sort ((r.decisionsOf catalog kind).map (Decision.explain r.id)) := by
  rw [Explanation.about, trail, Explanation.sort, filter_sortOn_comm, List.filter_flatMap,
    flatMap_eq_of_distinct hdistinct hr fun other hother => ?_]
  · have hrules : (r.decisions catalog).filter ((fun e : Explanation =>
        decide (e.target = some r.id ∧ e.rule ∈ kind.rules)) ∘ Decision.explain r.id) =
          (r.decisions catalog).filter (·.rule ∈ kind.rules) :=
      List.filter_congr fun d _ => decide_eq_decide.mpr (and_iff_right rfl)
    rw [Relation.explanations, List.filter_map, hrules, r.filter_decisions catalog]
    rfl
  · refine List.filter_eq_nil_iff.mpr fun e he => ?_
    obtain ⟨d, -, rfl⟩ := List.mem_map.mp he
    simp [Decision.explain, hother]

end AuthoredModel

/-! ### When there is a decision -/

namespace Relation

variable {catalog : Catalog} {r : Relation (Option AuthoredParams)}

/-- An alias never has the code of its base operator, so referring to it changes the operator,
like referring to a base operator by an id that is not its code. -/
theorem operatorDecisions_exact {op base : Operator} (h : catalog.WellFormed)
    (hlookup : catalog.lookup? r.operator = some op) (hbase : base? catalog r = some base) :
    (resolvedOperator catalog r = r.operator → operatorDecisions catalog r = []) ∧
      (resolvedOperator catalog r ≠ r.operator → ∃ d, operatorDecisions catalog r = [d] ∧
        d.details =
          [("from", .string r.operator), ("to", .string (resolvedOperator catalog r))]) := by
  obtain ⟨hmem, hnone⟩ := base?_mem r h hbase
  have hoperator : resolvedOperator catalog r = base.code := by
    rw [resolvedOperator, hbase, Option.map_some, Option.getD_some]
  rw [hoperator, operatorDecisions, hlookup, hbase]
  dsimp only
  cases halias : op.isAlias with
  | true =>
    have hdiffers : base.code ≠ r.operator := by
      intro hsame
      have hfound := h.lookup?_code hmem
      rw [hsame, hlookup] at hfound
      cases hfound
      rw [Operator.isAlias, hnone] at halias
      cases halias
    rw [if_pos rfl]
    exact ⟨fun hsame => absurd hsame hdiffers, fun _ => ⟨_, rfl, rfl⟩⟩
  | false =>
    rw [if_neg Bool.false_ne_true]
    refine ⟨fun hsame => if_neg (not_not.mpr hsame.symm), fun hdiffers => ?_⟩
    rw [if_pos (Ne.symm hdiffers)]
    exact ⟨_, rfl, rfl⟩

/-- The names of keys tell which keys they are. -/
theorem lists_missingFilled (operator id : String) {keys : List ParamKey}
    (hordered : keys.Sublist ParamKey.all) (key : ParamKey) :
    ((Decision.missingFilled operator keys).explain id).Lists key ↔ key ∈ keys := by
  constructor
  · intro h
    obtain ⟨listed, -, hkey, hdetails⟩ := h
    have hsame : keys.map (Json.string ∘ ParamKey.latin) =
        listed.map (Json.string ∘ ParamKey.latin) := by
      simpa [Decision.explain, Decision.details, Json.strings] using hdetails
    have hinjective : Function.Injective (Json.string ∘ ParamKey.latin) :=
      Function.Injective.comp (fun _ _ => Json.string.inj) ParamKey.latin_injective
    rwa [List.map_injective_iff.mpr hinjective hsame]
  · intro hkey
    exact ⟨keys, hordered, hkey, rfl⟩

variable (catalog) in
/-- A parameter that the author leaves out is in a decision on defaults, and no other is. -/
theorem defaultDecisions_exact (key : ParamKey) :
    (userParams r).get key = none ↔ ∃ d ∈ defaultDecisions catalog r,
      d.rule = "R-PARAM-DEFAULTS-ALL" ∨
        d.rule = "R-PARAM-DEFAULTS-MISSING" ∧ (d.explain r.id).Lists key := by
  unfold defaultDecisions
  split
  · next hempty =>
    refine iff_of_true ((ParamRecord.isEmpty_iff _).mp hempty key) ?_
    exact ⟨_, List.mem_singleton.mpr rfl, .inl rfl⟩
  · split
    · next hcomplete =>
      have hgiven := (ParamRecord.isComplete_iff _).mp hcomplete key
      refine iff_of_false (fun hnone => ?_) fun ⟨d, hd, _⟩ => nomatch hd
      rw [hnone] at hgiven
      cases hgiven
    · rw [← ParamRecord.mem_missing]
      have hlists := lists_missingFilled (resolvedOperator catalog r) r.id
        (List.filter_sublist : (userParams r).missing.Sublist ParamKey.all) key
      constructor
      · intro hmissing
        exact ⟨_, List.mem_singleton.mpr rfl, .inr ⟨rfl, hlists.mpr hmissing⟩⟩
      · intro h
        obtain ⟨d, hd, hrule⟩ := h
        cases List.mem_singleton.mp hd
        have hother : "R-PARAM-DEFAULTS-MISSING" ≠ "R-PARAM-DEFAULTS-ALL" := by decide
        exact hlists.mp (hrule.resolve_left hother).2

theorem length_defaultDecisions_le_one : (defaultDecisions catalog r).length ≤ 1 := by
  unfold defaultDecisions
  split
  · exact Nat.le_refl 1
  · split
    · exact Nat.zero_le 1
    · exact Nat.le_refl 1

end Relation
end EventPattern
