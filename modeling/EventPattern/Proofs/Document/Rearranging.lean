import EventPattern.Proofs.Document.Proper
import EventPattern.Proofs.Related
import Mathlib.Data.List.Perm.Basic
import Mathlib.Data.Set.List

/-! Documents that say the same in another order.

`Document.Rearranged` relates two documents that differ only in the order of their intervals,
relations and further constraints; how an item of the relations may differ is a parameter.
With `SameRelation` for it, the ids of the constraints that a relation refers to may be moved
and repeated as well.

What is read off such a document is rearranged accordingly (`IsDocument.rearranged`). This goes
through the shapes of the grammar: a relation between JSON values `Lifts` to one between what
they are read as. -/
namespace EventPattern

/-! ### JSON values -/

namespace Json

/-- Arrays of the same items, in whatever order and however often. -/
def SameItems (json other : Json) : Prop :=
  ∃ items others, json = .array items ∧ other = .array others ∧ ∀ item, item ∈ items ↔ item ∈ others

/-- An array in another order, with related items. -/
def Shuffled (R : Json → Json → Prop) (json other : Json) : Prop :=
  ∃ items others, json = .array items ∧ other = .array others ∧ Shuffle R items others

/-- Fields of the same keys, of which the values are related by the rule for their key, and are
equal where there is none. -/
def Fields.Alike (rules : List (String × (Json → Json → Prop))) (fields others : Fields) : Prop :=
  List.Forall₂ (fun field other => field.1 = other.1 ∧
    ((rules.lookup field.1).getD (· = ·)) field.2 other.2) fields others

def Alike (rules : List (String × (Json → Json → Prop))) (json other : Json) : Prop :=
  ∃ fields others, json = .object fields ∧ other = .object others ∧ Fields.Alike rules fields others

end Json

namespace Document

open Json (Fields)

/-- A relation that refers to the same constraints. -/
def SameRelation : Json → Json → Prop := Json.Alike [("constraintIds", Json.SameItems)]

/-- What is under the constraints of a document; the legacy shape keeps its relations there. -/
def constraintRules (R : Json → Json → Prop) : List (String × (Json → Json → Prop)) :=
  [("temporal", Json.Shuffled R), ("extra", Json.Shuffled (· = ·)),
    ("constraints", Json.Shuffled (· = ·))]

def documentRules (R : Json → Json → Prop) : List (String × (Json → Json → Prop)) :=
  [("intervals", Json.Shuffled (· = ·)), ("relations", Json.Shuffled R),
    ("constraints", Json.Alike (constraintRules R))]

/-- A document with its intervals, its relations and its further constraints in another order,
and relations that may differ as `R` says. -/
def Rearranged (R : Json → Json → Prop) : Json → Json → Prop := Json.Alike (documentRules R)

end Document

/-! ### Looking fields up -/

namespace Json.Fields.Alike

variable {rules : List (String × (Json → Json → Prop))} {fields others : Fields}

theorem get? (h : Fields.Alike rules fields others) (key : String) :
    Option.Rel ((rules.lookup key).getD (· = ·)) (fields.get? key) (others.get? key) := by
  induction h with
  | nil => exact .none
  | @cons field other rest more hfield _ ih =>
    obtain ⟨hkey, hvalue⟩ := hfield
    rw [get?_cons, get?_cons, ← hkey]
    split
    · next hsame =>
      rw [← hsame]
      exact .some hvalue
    · exact ih

theorem get?_eq (h : Fields.Alike rules fields others) {key : String}
    (hkey : rules.lookup key = none) : others.get? key = fields.get? key := by
  have hrel := h.get? key
  rw [hkey, Option.getD_none] at hrel
  generalize fields.get? key = value at hrel ⊢
  generalize others.get? key = other at hrel ⊢
  cases hrel with
  | none => rfl
  | some hsame => rw [hsame]

theorem only (h : Fields.Alike rules fields others) {allowed : List String}
    (honly : Document.Only allowed fields) : Document.Only allowed others := by
  intro other hother
  obtain ⟨field, hfield, hkey, -⟩ :=
    Shuffle.exists_of_mem ⟨fields, .refl _, h⟩ hother
  exact hkey ▸ honly field hfield

end Json.Fields.Alike

/-! ### Shapes -/

namespace Document

open Json (Fields)

variable {α β : Type}

/-- Values that are related are read as what is related, each by a shape of its own. -/
def Lifts (R : Json → Json → Prop) (shape : Shape α) (shape' : Shape β) (S : α → β → Prop) :
    Prop :=
  ∀ json other a, R json other → shape json a → ∃ b, shape' other b ∧ S a b

theorem lifts_eq (shape : Shape α) : Lifts (· = ·) shape shape (· = ·) := by
  intro json other a hsame h
  subst hsame
  exact ⟨a, h, rfl⟩

theorem lifts_shuffled {R : Json → Json → Prop} {shape : Shape α} {shape' : Shape β}
    {S : α → β → Prop} (h : Lifts R shape shape' S) :
    Lifts (Json.Shuffled R) (IsList shape) (IsList shape') (Shuffle S) := by
  intro json other values hshuffled hlist
  obtain ⟨items, others, rfl, rfl, middle, hperm, hrelated⟩ := hshuffled
  obtain ⟨_, hitems, hvalues⟩ := hlist
  cases hitems
  -- The values follow the items in their new order, and each of them is lifted there.
  obtain ⟨moved, hmoved, hback⟩ := List.perm_comp_forall₂ hperm.symm hvalues
  have hlifted : ∃ found, List.Forall₂ shape' others found ∧ List.Forall₂ S moved found := by
    clear hperm hvalues hback
    induction hrelated generalizing moved with
    | nil =>
      cases hmoved
      exact ⟨[], .nil, .nil⟩
    | @cons item item' _ _ hitem _ ih =>
      obtain ⟨value, rest, hvalue, hrest, rfl⟩ := List.forall₂_cons_left_iff.mp hmoved
      obtain ⟨b, hb, hab⟩ := h item item' value hitem hvalue
      obtain ⟨found, hfound, hrelated⟩ := ih rest hrest
      exact ⟨b :: found, .cons hb hfound, .cons hab hrelated⟩
  obtain ⟨found, hfound, hrelated⟩ := hlifted
  exact ⟨found, ⟨others, rfl, hfound⟩, moved, hback.symm, hrelated⟩

/-- Texts that are not empty, as they are written. -/
theorem forall₂_isNonEmpty_iff {items : List Json} {texts : List String} :
    List.Forall₂ IsNonEmpty items texts ↔
      items = texts.map Json.string ∧ ∀ text ∈ texts, text ≠ "" := by
  constructor
  · intro h
    induction h with
    | nil => exact ⟨rfl, nofun⟩
    | cons hitem _ ih =>
      obtain ⟨rfl, hne⟩ := hitem
      rw [ih.1, List.map_cons]
      exact ⟨rfl, List.forall_mem_cons.mpr ⟨hne, ih.2⟩⟩
  · intro h
    obtain ⟨rfl, hne⟩ := h
    exact List.forall₂_map_left_iff.mpr (List.forall₂_same.mpr fun text htext =>
      ⟨rfl, hne text htext⟩)

theorem lifts_sameItems :
    Lifts Json.SameItems (IsList IsNonEmpty) (IsList IsNonEmpty)
      fun texts others => ∀ text, text ∈ texts ↔ text ∈ others := by
  intro json other texts hsame hlist
  obtain ⟨items, others, rfl, rfl, hmem⟩ := hsame
  obtain ⟨_, hitems, htexts⟩ := hlist
  cases hitems
  obtain ⟨rfl, hne⟩ := forall₂_isNonEmpty_iff.mp htexts
  obtain ⟨found, rfl⟩ : others ∈ Set.range (List.map Json.string) := by
    rw [Set.range_list_map]
    intro item hitem
    obtain ⟨text, -, rfl⟩ := List.mem_map.mp ((hmem item).mpr hitem)
    exact ⟨text, rfl⟩
  have hsame (text : String) : text ∈ texts ↔ text ∈ found := by
    have htext := hmem (.string text)
    simpa using htext
  refine ⟨found, ⟨_, rfl, forall₂_isNonEmpty_iff.mpr ⟨rfl, fun text htext => ?_⟩⟩, hsame⟩
  exact hne text ((hsame text).mpr htext)

/-! ### Fields -/

section Fields
variable {fields others : Fields} {key : String} {shape : Shape α} {a default : α}

theorem HasField.weaken {shape' : Shape α} (hshape : ∀ json a, shape json a → shape' json a)
    (h : HasField fields key shape a) : HasField fields key shape' a := by
  obtain ⟨json, hget, h⟩ := h
  exact ⟨json, hget, hshape json a h⟩

variable {rules : List (String × (Json → Json → Prop))} {R : Json → Json → Prop}
  {shape' : Shape β} {S : α → β → Prop}

theorem HasField.lift (hkey : rules.lookup key = some R) (hlifts : Lifts R shape shape' S)
    (h : HasField fields key shape a) (halike : Fields.Alike rules fields others) :
    ∃ b, HasField others key shape' b ∧ S a b := by
  obtain ⟨json, hget, h⟩ := h
  have hrel := halike.get? key
  rw [hkey, Option.getD_some, hget] at hrel
  cases hother : others.get? key with
  | none =>
    rw [hother] at hrel
    cases hrel
  | some other =>
    rw [hother] at hrel
    cases hrel with
    | some hvalue =>
      obtain ⟨b, hb, hab⟩ := hlifts json other a hvalue h
      exact ⟨b, ⟨other, hother, hb⟩, hab⟩

theorem HasFieldOr.lift (hkey : rules.lookup key = some R) (hlifts : Lifts R shape shape' S)
    (h : HasFieldOr fields key default shape a) (default' : β) (hdefault : S default default')
    (halike : Fields.Alike rules fields others) :
    ∃ b, HasFieldOr others key default' shape' b ∧ S a b := by
  rcases h with ⟨hnone, rfl⟩ | h
  · have hrel := halike.get? key
    rw [hnone] at hrel
    cases hother : others.get? key with
    | none => exact ⟨default', .inl ⟨hother, rfl⟩, hdefault⟩
    | some other =>
      rw [hother] at hrel
      cases hrel
  · obtain ⟨b, hb, hab⟩ := h.lift hkey hlifts halike
    exact ⟨b, .inr hb, hab⟩

end Fields

end Document

/-! ### Models -/

/-- The same relation, but for the order and the number of its references to constraints. -/
structure Relation.Alike {P : Type} (r other : Relation P) : Prop where
  frame : other = { r with constraintIds := other.constraintIds }
  references : ∀ id, id ∈ r.constraintIds ↔ id ∈ other.constraintIds

theorem Relation.Alike.refl {P : Type} (r : Relation P) : r.Alike r := ⟨rfl, fun _ => .rfl⟩

/-- A model with its parts in another order, and relations that may differ as `S` says. -/
structure AuthoredModel.Rearranged
    (S : Relation (Option AuthoredParams) → Relation (Option AuthoredParams) → Prop)
    (m other : AuthoredModel) : Prop where
  frame : other = { m with
    intervals := other.intervals, relations := other.relations, constraints := other.constraints }
  intervals : m.intervals.Perm other.intervals
  relations : Shuffle S m.relations other.relations
  constraints : m.constraints.Perm other.constraints

namespace Document

open Json (Fields)

/-! ### Relations -/

/-- Relations of either shape that differ as `R` says are read as ones that differ as `S` says,
among any intervals that are there still. -/
structure LiftsRelations (R : Json → Json → Prop)
    (S : Relation (Option AuthoredParams) → Relation (Option AuthoredParams) → Prop) : Prop where
  legacy : ∀ ids ids', ids ⊆ ids' → Lifts R (IsLegacyRelation ids) (IsLegacyRelation ids')
    fun r other => S r.relation other.relation
  canonical : ∀ ids ids', ids ⊆ ids' →
    Lifts R (IsCanonicalRelation ids) (IsCanonicalRelation ids') S

theorem IsEndpoint.weaken {ids ids' : List String} (hids : ids ⊆ ids') (json : Json)
    (id : String) (h : IsEndpoint ids json id) : IsEndpoint ids' json id := ⟨h.1, hids h.2⟩

theorem LegacyRelationFields.weaken {ids ids' : List String} (hids : ids ⊆ ids') {fields : Fields}
    {r : LegacyRelation} (h : LegacyRelationFields ids fields r) :
    LegacyRelationFields ids' fields r :=
  { h with left := h.left.weaken (IsEndpoint.weaken hids)
           right := h.right.weaken (IsEndpoint.weaken hids) }

theorem CanonicalRelationFields.weaken {ids ids' : List String} (hids : ids ⊆ ids')
    {fields : Fields} {r : Relation (Option AuthoredParams)}
    (h : CanonicalRelationFields ids fields r) : CanonicalRelationFields ids' fields r :=
  { h with left := h.left.weaken (IsEndpoint.weaken hids)
           right := h.right.weaken (IsEndpoint.weaken hids) }

theorem liftsRelations_eq : LiftsRelations (· = ·) (· = ·) where
  legacy ids ids' hids := by
    intro json other r hsame h
    subst hsame
    obtain ⟨fields, rfl, honly, h⟩ := h
    exact ⟨r, ⟨fields, rfl, honly, h.weaken hids⟩, rfl⟩
  canonical ids ids' hids := by
    intro json other r hsame h
    subst hsame
    obtain ⟨fields, rfl, honly, h⟩ := h
    exact ⟨r, ⟨fields, rfl, honly, h.weaken hids⟩, rfl⟩

theorem liftsRelations_sameRelation : LiftsRelations SameRelation Relation.Alike where
  legacy ids ids' hids := by
    intro json other r hsame hrelation
    obtain ⟨fields, others, rfl, rfl, halike⟩ := hsame
    obtain ⟨_, hobject, honly, h⟩ := hrelation
    cases hobject
    have h := h.weaken hids
    obtain ⟨constraintIds, hreferences, hids⟩ :=
      h.constraintIds.lift rfl lifts_sameItems [] (fun _ => .rfl) halike
    refine ⟨{ r with constraintIds }, ⟨others, rfl, halike.only honly, ?_⟩, ⟨rfl, hids⟩⟩
    exact {
      id := h.id.of_get? (halike.get?_eq rfl)
      left := h.left.of_get? (halike.get?_eq rfl)
      right := h.right.of_get? (halike.get?_eq rfl)
      operator := h.operator.of_get? (halike.get?_eq rfl)
      params := h.params.of_get? (halike.get?_eq rfl)
      allenAlias := h.allenAlias.of_get? (halike.get?_eq rfl)
      constraintIds := hreferences }
  canonical ids ids' hids := by
    intro json other r hsame hrelation
    obtain ⟨fields, others, rfl, rfl, halike⟩ := hsame
    obtain ⟨_, hobject, honly, h⟩ := hrelation
    cases hobject
    have h := h.weaken hids
    obtain ⟨constraintIds, hreferences, hids⟩ :=
      h.constraintIds.lift rfl lifts_sameItems [] (fun _ => .rfl) halike
    refine ⟨{ r with constraintIds }, ⟨others, rfl, halike.only honly, ?_⟩, ⟨rfl, hids⟩⟩
    exact {
      id := h.id.of_get? (halike.get?_eq rfl)
      left := h.left.of_get? (halike.get?_eq rfl)
      right := h.right.of_get? (halike.get?_eq rfl)
      operator := h.operator.of_get? (halike.get?_eq rfl)
      params := h.params.of_get? (halike.get?_eq rfl)
      constraintIds := hreferences
      label := h.label.of_get? (halike.get?_eq rfl) }

/-! ### Documents -/

section Documents
variable {R : Json → Json → Prop}
  {S : Relation (Option AuthoredParams) → Relation (Option AuthoredParams) → Prop}
  (hrelations : LiftsRelations R S) {fields others : Fields}
include hrelations

theorem lifts_legacyConstraints {ids ids' : List String} (hids : ids ⊆ ids') :
    Lifts (Json.Alike (constraintRules R)) (IsLegacyConstraints ids) (IsLegacyConstraints ids')
      fun parts others => Shuffle (fun r other => S r.relation other.relation) parts.1 others.1 ∧
        parts.2.Perm others.2 := by
  intro json other parts halike hparts
  obtain ⟨fields, others, rfl, rfl, halike⟩ := halike
  obtain ⟨_, hobject, honly, htemporal, hextra⟩ := hparts
  cases hobject
  obtain ⟨relations, hread, hrelations⟩ := htemporal.lift rfl
    (lifts_shuffled (hrelations.legacy ids ids' hids)) [] .nil halike
  obtain ⟨constraints, hkept, hconstraints⟩ := hextra.lift rfl
    (lifts_shuffled (lifts_eq _)) [] .nil halike
  exact ⟨(relations, constraints), ⟨others, rfl, halike.only honly, hread, hkept⟩, hrelations,
    hconstraints.perm⟩

omit hrelations in
theorem lifts_canonicalConstraints :
    Lifts (Json.Alike (constraintRules R)) IsCanonicalConstraints IsCanonicalConstraints
      List.Perm := by
  intro json other constraints halike hconstraints
  obtain ⟨fields, others, rfl, rfl, halike⟩ := halike
  obtain ⟨_, hobject, honly, h⟩ := hconstraints
  cases hobject
  obtain ⟨found, hread, hfound⟩ := h.lift rfl (lifts_shuffled (lifts_eq _)) [] .nil halike
  exact ⟨found, ⟨others, rfl, halike.only honly, hread⟩, hfound.perm⟩

theorem LegacyFields.rearranged {d : LegacyDocument} (h : LegacyFields fields d)
    (halike : Fields.Alike (documentRules R) fields others) :
    ∃ d', LegacyFields others d' ∧ d.model.Rearranged S d'.model := by
  obtain ⟨intervals, hread, hintervals⟩ :=
    h.intervals.read.lift rfl (lifts_shuffled (lifts_eq _)) halike
  have hids := hintervals.perm.map Interval.id
  obtain ⟨⟨relations, constraints⟩, hkept, hmoved, hperm⟩ := h.constraints.lift rfl
    (lifts_legacyConstraints hrelations hids.subset) ([], []) ⟨.nil, .nil⟩ halike
  refine ⟨{ d with intervals, relations, constraints }, ?_, rfl, hintervals.perm,
    hmoved.map (f := LegacyRelation.relation) (g := LegacyRelation.relation) fun _ _ h => h,
    hperm.map _⟩
  exact {
    only := halike.only h.only
    id := h.id.of_get? (halike.get?_eq rfl)
    name := h.name.of_get? (halike.get?_eq rfl)
    description := h.description.of_get? (halike.get?_eq rfl)
    createdAt := h.createdAt.of_get? (halike.get?_eq rfl)
    updatedAt := h.updatedAt.of_get? (halike.get?_eq rfl)
    intervals := ⟨hread, hids.nodup_iff.mp h.intervals.distinct⟩
    constraints := hkept
    selection := h.selection.of_get? (halike.get?_eq rfl) }

theorem CanonicalFields.rearranged {d : CanonicalDocument} (h : CanonicalFields fields d)
    (halike : Fields.Alike (documentRules R) fields others) :
    ∃ d', CanonicalFields others d' ∧ d.model.Rearranged S d'.model := by
  obtain ⟨intervals, hread, hintervals⟩ :=
    h.intervals.read.lift rfl (lifts_shuffled (lifts_eq _)) halike
  have hids := hintervals.perm.map Interval.id
  obtain ⟨relations, hkept, hmoved⟩ := h.relations.lift rfl
    (lifts_shuffled (hrelations.canonical _ _ hids.subset)) [] .nil halike
  obtain ⟨constraints, hfound, hperm⟩ :=
    h.constraints.lift rfl lifts_canonicalConstraints [] .nil halike
  refine ⟨{ d with intervals, relations, constraints }, ?_, rfl, hintervals.perm, hmoved,
    hperm.map _⟩
  exact {
    only := halike.only h.only
    id := h.id.of_get? (halike.get?_eq rfl)
    metadata := h.metadata.of_get? (halike.get?_eq rfl)
    intervals := ⟨hread, hids.nodup_iff.mp h.intervals.distinct⟩
    relations := hkept
    constraints := hfound
    selection := h.selection.of_get? (halike.get?_eq rfl) }

/-- **A document of the grammar is one in any order**, and its parts are read in that order. -/
theorem IsDocument.rearranged {input other : Json} {doc : Document} (h : IsDocument input doc)
    (hrearranged : Rearranged R input other) :
    ∃ doc', IsDocument other doc' ∧ doc.model.Rearranged S doc'.model := by
  obtain ⟨fields, others, rfl, rfl, halike⟩ := hrearranged
  obtain ⟨_, hobject, hversion, hfields⟩ := h
  cases hobject
  have hversion := hversion.of_get? (halike.get?_eq rfl)
  cases doc with
  | legacy d =>
    obtain ⟨d', hd', hmodel⟩ := LegacyFields.rearranged hrelations hfields halike
    exact ⟨.legacy d', ⟨others, rfl, hversion, hd'⟩, hmodel⟩
  | canonical d =>
    obtain ⟨d', hd', hmodel⟩ := CanonicalFields.rearranged hrelations hfields halike
    exact ⟨.canonical d', ⟨others, rfl, hversion, hd'⟩, hmodel⟩

end Documents
end Document
end EventPattern
