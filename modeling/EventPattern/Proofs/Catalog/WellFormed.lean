import EventPattern.Catalog.Embedded
import EventPattern.Proofs.Catalog.Loading

/-! Loaded catalogs.

`Catalog.Loadable` is what an author may bring along: a catalog that some file loads to. It is
well formed, which is all that anything after loading relies on: looking up the code of an
operator gives that operator, and behind every operator there is a base operator with a
default for each parameter. -/
namespace EventPattern

/-- Among items that a key tells apart, the one found by it is the one that has it. -/
theorem find?_key_eq_some {α κ : Type} [DecidableEq κ] {key : α → κ} {items : List α}
    (h : (items.map key).Nodup) (k : κ) (item : α) :
    items.find? (key · == k) = some item ↔ item ∈ items ∧ key item = k := by
  constructor
  · intro hfind
    have hkey : (key item == k) = true := List.find?_some (p := (key · == k)) hfind
    exact ⟨List.mem_of_find?_eq_some hfind, beq_iff_eq.mp hkey⟩
  · intro h
    obtain ⟨hmem, rfl⟩ := h
    induction items with
    | nil => cases hmem
    | cons first rest ih =>
      rw [List.map_cons, List.nodup_cons] at h
      by_cases hfirst : key first = key item
      · rcases List.mem_cons.mp hmem with rfl | hrest
        · exact List.find?_cons_of_pos (p := (key · == key item)) (beq_iff_eq.mpr rfl)
        · exact absurd (hfirst ▸ List.mem_map_of_mem hrest) h.1
      · rw [List.find?_cons_of_neg (p := (key · == key item)) (mt beq_iff_eq.mp hfirst)]
        rcases List.mem_cons.mp hmem with rfl | hrest
        · exact absurd rfl hfirst
        · exact ih h.2 hrest

/-! ### What is well formed -/

structure Operator.WellFormed (op : Operator) : Prop where
  id : op.id ≠ ""
  code : op.code ≠ ""
  readable : op.defaults.Readable
  admitted : op.domains.Admits op.defaults
  fixed : ∀ link, op.aliasOf = some link → link.fixed.Readable ∧ op.domains.Admits link.fixed
  complete : op.aliasOf = none → op.defaults.isComplete

structure Catalog.WellFormed (c : Catalog) : Prop where
  readable : c.defaults.Readable
  complete : c.defaults.isComplete
  operators : ∀ op ∈ c.operators, op.WellFormed
  distinct : Catalog.File.Distinct c.operators
  ascending : c.operators.Pairwise fun a b => a.id ≤ b.id
  targets : ∀ op ∈ c.operators, ∀ link, op.aliasOf = some link →
    ∃ target, c.byId? link.target = some target ∧ target.aliasOf = none

namespace Catalog

/-- Some file loads to the catalog. -/
def Loadable (c : Catalog) : Prop := ∃ file : File, file.load = .ok c

theorem File.loadOperator_wellFormed {entry : File.Entry} {position : Nat} {op : Operator}
    (h : loadOperator entry position = .ok op) : op.WellFormed := by
  obtain ⟨⟨hid, hcode, -⟩, defaults, aliasOf, hdefaults, halias, hcomplete, rfl⟩ :=
    (loadOperator_eq_ok ..).mp h
  have hallowed := typedParams_allowed hdefaults
  refine ⟨hid, hcode, hallowed.1, hallowed.2, fun link hlink => ?_, fun hnone => ?_⟩
  · have hlink : aliasOf = some link := hlink
    rcases (loadAlias_eq_ok ..).mp halias with ⟨-, hbase⟩ | ⟨-, mapping, fixed, -, hfixed, hsome⟩
    · rw [hbase] at hlink
      cases hlink
    · rw [hsome] at hlink
      cases hlink
      exact typedParams_allowed hfixed
  · have hnone : aliasOf = none := hnone
    rcases (loadAlias_eq_ok ..).mp halias with ⟨hkind, -⟩ | ⟨-, mapping, fixed, -, -, hsome⟩
    · exact hcomplete hkind
    · rw [hsome] at hnone
      cases hnone

/-- **A catalog that was loaded is well formed.** -/
theorem Loadable.wellFormed {c : Catalog} (h : c.Loadable) : c.WellFormed := by
  obtain ⟨file, hload⟩ := h
  obtain ⟨defaults, loaded, hdefaults, hcomplete, hloaded, rfl, hdistinct, haliases⟩ :=
    (File.load_eq_ok ..).mp hload
  have hoperators : ∀ op ∈ loaded, op.WellFormed := by
    intro op hop
    obtain ⟨position, hlt, hget⟩ := List.getElem_of_mem hop
    have hentry := List.forall₂_iff_get.mp hloaded
    exact hget ▸ File.loadOperator_wellFormed (hentry.2 position (hentry.1 ▸ hlt) hlt)
  exact {
    readable := (File.typedParams_allowed hdefaults).1
    complete := hcomplete
    operators := fun op hop => hoperators op ((mem_sortOn Operator.id).mp hop)
    distinct := hdistinct
    ascending := pairwise_sortOn Operator.id loaded
    targets := fun op hop => (File.checkAlias_eq_ok _ op).mp (haliases op hop) }

theorem File.loadable_getD {file : File} (h : file.load.toOption.isSome) (other : Catalog) :
    (file.load.toOption.getD other).Loadable := by
  refine ⟨file, ?_⟩
  cases hload : file.load with
  | ok catalog => rfl
  | error fault =>
    rw [hload] at h
    cases h

/-! ### Looking operators up -/

theorem mem_of_byId? {c : Catalog} {id : String} {op : Operator} (h : c.byId? id = some op) :
    op ∈ c.operators := List.mem_of_find?_eq_some h

theorem mem_of_lookup? {c : Catalog} {reference : String} {op : Operator}
    (h : c.lookup? reference = some op) : op ∈ c.operators := by
  rcases Option.or_eq_some_iff.mp h with h | ⟨-, h⟩
  · exact List.mem_of_find?_eq_some h
  · exact mem_of_byId? h

namespace WellFormed

variable {c : Catalog} (h : c.WellFormed)
include h

theorem byId?_eq_some (id : String) (op : Operator) :
    c.byId? id = some op ↔ op ∈ c.operators ∧ op.id = id :=
  find?_key_eq_some h.distinct.1 id op

theorem byCode?_eq_some (code : String) (op : Operator) :
    c.byCode? code = some op ↔ op ∈ c.operators ∧ op.code = code :=
  find?_key_eq_some h.distinct.2 code op

/-- **A code names the operator that has it.** -/
theorem lookup?_code {op : Operator} (hop : op ∈ c.operators) : c.lookup? op.code = some op := by
  rw [lookup?, (h.byCode?_eq_some op.code op).mpr ⟨hop, rfl⟩, Option.some_or]

/-- A reference that is no code names the operator that has it as its id. -/
theorem lookup?_of_no_code {reference : String}
    (hnone : ∀ op ∈ c.operators, op.code ≠ reference) :
    c.lookup? reference = c.byId? reference := by
  have hcode : c.byCode? reference = none := by
    refine Option.eq_none_iff_forall_ne_some.mpr fun op hop => ?_
    obtain ⟨hmem, hsame⟩ := (h.byCode?_eq_some reference op).mp hop
    exact hnone op hmem hsame
  rw [lookup?, hcode, Option.none_or]

/-- Behind every operator there is a base operator. -/
theorem base?_eq_some {op : Operator} (hop : op ∈ c.operators) :
    ∃ base, c.base? op = some base ∧ base ∈ c.operators ∧ base.aliasOf = none := by
  cases halias : op.aliasOf with
  | none =>
    refine ⟨op, ?_, hop, halias⟩
    rw [base?, halias]
  | some link =>
    obtain ⟨target, htarget, hbase⟩ := h.targets op hop link halias
    refine ⟨target, ?_, mem_of_byId? htarget, hbase⟩
    rw [base?, halias]
    exact htarget

end WellFormed

/-! ### The catalog that is used when none is given -/

theorem load_embedded : Embedded.file.load = .ok embedded := by
  have hloads : Embedded.file.load.toOption.isSome := by decide +kernel
  unfold embedded
  cases hload : Embedded.file.load with
  | ok catalog => rfl
  | error fault =>
    rw [hload] at hloads
    cases hloads

theorem embedded_loadable : embedded.Loadable := ⟨Embedded.file, load_embedded⟩

end Catalog
end EventPattern
