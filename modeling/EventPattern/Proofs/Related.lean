import EventPattern.Proofs.Sorting
import Mathlib.Data.List.Perm.Basic

/-! Lists of related items.

`List.Forall₂` relates two lists item by item; what is done to both of them in the same way keeps
them related. `Shuffle` allows another order besides. Where a key tells the items apart, sorting
by it undoes the shuffle and leaves the relation (`Shuffle.sortOn`). -/
namespace EventPattern

variable {α β γ δ : Type} {R : α → β → Prop}

/-! ### Item by item -/

/-- What stands at a position of one list is related to something at that position of the other. -/
theorem forall₂_getElem? {items : List α} {values : List β} (h : List.Forall₂ R items values)
    {i : Nat} {item : α} (hitem : items[i]? = some item) :
    ∃ value, values[i]? = some value ∧ R item value := by
  induction h generalizing i with
  | nil => cases hitem
  | @cons a b _ _ hab _ ih =>
    cases i with
    | zero =>
      cases hitem
      exact ⟨b, rfl, hab⟩
    | succ i => exact ih hitem

/-- What is in one list is related to something in the other. -/
theorem forall₂_exists_of_mem {items : List α} {values : List β}
    (h : List.Forall₂ R items values) {item : α} (hitem : item ∈ items) :
    ∃ value ∈ values, R item value := by
  obtain ⟨i, hi⟩ := List.getElem?_of_mem hitem
  obtain ⟨value, hvalue, hrelated⟩ := forall₂_getElem? h hi
  exact ⟨value, List.mem_of_getElem? hvalue, hrelated⟩

theorem forall₂_isEmpty {items : List α} {others : List β} (h : List.Forall₂ R items others) :
    items.isEmpty = others.isEmpty := by
  cases h <;> rfl

/-- Related lists have related items in front that pass related tests. -/
theorem forall₂_find? {p : α → Bool} {q : β → Bool} (hpq : ∀ a b, R a b → p a = q b)
    {items : List α} {others : List β} (h : List.Forall₂ R items others) :
    Option.Rel R (items.find? p) (others.find? q) := by
  induction h with
  | nil => exact .none
  | @cons a b _ _ hab _ ih =>
    rw [List.find?_cons, List.find?_cons, hpq a b hab]
    cases q b
    · exact ih
    · exact .some hab

/-- Two ways of picking from one list that give related items. -/
theorem forall₂_filterMap {f : γ → Option α} {g : γ → Option β}
    (h : ∀ c, Option.Rel R (f c) (g c)) (items : List γ) :
    List.Forall₂ R (items.filterMap f) (items.filterMap g) :=
  List.rel_filterMap (R := (· = ·)) (fun c _ hsame => hsame ▸ h c)
    (List.forall₂_same.mpr fun _ _ => rfl)

/-- Two ways of making lists of items that give related lists. -/
theorem forall₂_flatMap {f : γ → List α} {g : γ → List β} (h : ∀ c, List.Forall₂ R (f c) (g c))
    (items : List γ) : List.Forall₂ R (items.flatMap f) (items.flatMap g) :=
  List.rel_flatMap (R := (· = ·)) (List.forall₂_same.mpr fun _ _ => rfl)
    fun c _ hsame => hsame ▸ h c

theorem rel_map {f : γ → α} {g : γ → β} (h : ∀ c, R (f c) (g c)) (given : Option γ) :
    Option.Rel R (given.map f) (given.map g) := by
  cases given with
  | none => exact .none
  | some c => exact .some (h c)

theorem exists_of_rel_some {given : Option α} {b : β} (h : Option.Rel R given (some b)) :
    ∃ a, given = some a ∧ R a b := by
  cases h with
  | some hab => exact ⟨_, rfl, hab⟩

/-! ### In another order -/

/-- A list in another order, with related items. -/
def Shuffle (R : α → β → Prop) (items : List α) (others : List β) : Prop :=
  ∃ middle, items.Perm middle ∧ List.Forall₂ R middle others

namespace Shuffle

theorem nil : Shuffle R [] [] := ⟨[], .nil, .nil⟩

theorem eq_nil_iff {items : List α} {others : List β} (h : Shuffle R items others) :
    items = [] ↔ others = [] := by
  obtain ⟨middle, hperm, hrelated⟩ := h
  rw [← List.length_eq_zero_iff, ← List.length_eq_zero_iff, hperm.length_eq, hrelated.length_eq]

/-- Related lists may both be put in another order. -/
theorem of_forall₂ {items items' : List α} {others others' : List β}
    (h : List.Forall₂ R items others) (hitems : items.Perm items')
    (hothers : others.Perm others') : Shuffle R items' others' := by
  obtain ⟨middle, hrelated, hperm⟩ := List.perm_comp_forall₂ hothers.symm h.flip
  exact ⟨middle, (hperm.trans hitems).symm, hrelated.flip⟩

theorem perm {items others : List α} (h : Shuffle (· = ·) items others) : items.Perm others := by
  obtain ⟨middle, hperm, hsame⟩ := h
  rw [List.forall₂_eq_eq_eq] at hsame
  exact hsame ▸ hperm

theorem map {S : γ → δ → Prop} {f : α → γ} {g : β → δ} (hfg : ∀ a b, R a b → S (f a) (g b))
    {items : List α} {others : List β} (h : Shuffle R items others) :
    Shuffle S (items.map f) (others.map g) := by
  obtain ⟨middle, hperm, hrelated⟩ := h
  refine ⟨middle.map f, hperm.map f, ?_⟩
  exact List.forall₂_map_left_iff.mpr (List.forall₂_map_right_iff.mpr (hrelated.imp hfg))

/-- Every item of the other list is there for one of this list. -/
theorem exists_of_mem {items : List α} {others : List β} (h : Shuffle R items others) {b : β}
    (hb : b ∈ others) : ∃ a ∈ items, R a b := by
  obtain ⟨middle, hperm, hrelated⟩ := h
  obtain ⟨a, ha, hab⟩ := forall₂_exists_of_mem hrelated.flip hb
  exact ⟨a, hperm.mem_iff.mpr ha, hab⟩

theorem sortOn {κ : Type} [LE κ] [DecidableLE κ] [Std.IsLinearOrder κ] [DecidableEq κ]
    {R : α → α → Prop} {key : α → κ} (hkey : ∀ a b, R a b → key a = key b) {items others : List α}
    (h : Shuffle R items others) (hdistinct : (items.map key).Nodup) :
    List.Forall₂ R (sortOn key items) (EventPattern.sortOn key others) := by
  obtain ⟨middle, hperm, hrelated⟩ := h
  rw [sortOn_eq_of_perm key hperm hdistinct]
  refine forall₂_sortBy (fun a a' ha b b' hb => ?_) hrelated
  rw [hkey a a' ha, hkey b b' hb]

end Shuffle
end EventPattern
