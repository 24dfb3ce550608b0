import EventPattern.Order
import Mathlib.Data.List.Forall2
import Mathlib.Data.List.Induction
import Mathlib.Data.List.Nodup

/-! What sorting does to a list, and keeping each item once.

`sortBy` permutes its list and leaves a list that is in order already as it is. For a key,
the result is in ascending order, and among the items of one key nothing moves
(`filter_sortOn`): so the first item of a key is the same before and after
(`find?_sortOn`), which is what looking something up by its id depends on. So what there is of
each key is all that counts, and where there is one item of each, the order they came in does
not show any more (`sortOn_eq_of_perm`). -/
namespace EventPattern

variable {α κ : Type}

/-! ### By any relation -/

theorem insertBy_perm (before : α → α → Bool) (item : α) (items : List α) :
    (insertBy before item items).Perm (item :: items) := by
  induction items with
  | nil => exact .refl _
  | cons first rest ih =>
    rw [insertBy]
    split
    · exact .refl _
    · exact (ih.cons first).trans (.swap item first rest)

theorem sortBy_perm (before : α → α → Bool) (items : List α) :
    (sortBy before items).Perm items := by
  induction items with
  | nil => exact .refl _
  | cons item rest ih => exact (insertBy_perm before item _).trans (ih.cons item)

/-- An item that may stand before all others goes to the front. -/
theorem insertBy_of_before (before : α → α → Bool) (item : α) (items : List α)
    (h : ∀ other ∈ items, before item other) : insertBy before item items = item :: items := by
  cases items with
  | nil => rfl
  | cons first rest => rw [insertBy, if_pos (h first (List.mem_cons_self ..))]

theorem sortBy_of_pairwise (before : α → α → Bool) (items : List α)
    (h : items.Pairwise fun a b => before a b) : sortBy before items = items := by
  induction h with
  | nil => rfl
  | @cons item rest hitem _ ih =>
    show insertBy before item (sortBy before rest) = item :: rest
    rw [ih, insertBy_of_before before item rest hitem]

/-- Sorting goes by nothing but the comparison: lists of related items stay related. -/
theorem forall₂_sortBy {β : Type} {R : α → β → Prop} {before : α → α → Bool}
    {before' : β → β → Bool}
    (h : ∀ a a', R a a' → ∀ b b', R b b' → before a b = before' a' b') {items : List α}
    {others : List β} (hitems : List.Forall₂ R items others) :
    List.Forall₂ R (sortBy before items) (sortBy before' others) := by
  have hinsert {item : α} {item' : β} (hitem : R item item') {items : List α} {others : List β}
      (hitems : List.Forall₂ R items others) :
      List.Forall₂ R (insertBy before item items) (insertBy before' item' others) := by
    induction hitems with
    | nil => exact .cons hitem .nil
    | @cons first first' rest rest' hfirst hrest ih =>
      rw [insertBy, insertBy, h _ _ hitem _ _ hfirst]
      split
      · exact .cons hitem (.cons hfirst hrest)
      · exact .cons hfirst ih
  induction hitems with
  | nil => exact .nil
  | cons hitem _ ih => exact hinsert hitem ih

/-! ### By a total order -/

section Total
variable {before : α → α → Bool} (htotal : ∀ a b, before a b = true ∨ before b a = true)
  (htrans : ∀ a b c, before a b = true → before b c = true → before a c = true)
include htotal htrans

theorem pairwise_insertBy {item : α} {items : List α}
    (h : items.Pairwise fun a b => before a b = true) :
    (insertBy before item items).Pairwise fun a b => before a b = true := by
  induction h with
  | nil => exact List.pairwise_singleton _ _
  | @cons first rest hfirst hrest ih =>
    rw [insertBy]
    split
    · next hbefore =>
      refine (hrest.cons hfirst).cons fun other hother => ?_
      rcases List.mem_cons.mp hother with rfl | hother
      · exact hbefore
      · exact htrans _ _ _ hbefore (hfirst other hother)
    · next hafter =>
      refine ih.cons fun other hother => ?_
      rcases List.mem_cons.mp ((insertBy_perm _ _ _).mem_iff.mp hother) with rfl | hother
      · exact (htotal first other).resolve_right hafter
      · exact hfirst other hother

theorem pairwise_sortBy (items : List α) :
    (sortBy before items).Pairwise fun a b => before a b = true := by
  induction items with
  | nil => exact .nil
  | cons item rest ih => exact pairwise_insertBy htotal htrans ih

/-- Where the order tells the items apart, the one they came in does not show any more. -/
theorem sortBy_eq_of_perm {items others : List α}
    (hdistinct : ∀ a ∈ items, ∀ b ∈ items, before a b = true → before b a = true → a = b)
    (h : items.Perm others) : sortBy before items = sortBy before others := by
  have hsorted := (sortBy_perm before items).trans (h.trans (sortBy_perm before others).symm)
  refine hsorted.eq_of_pairwise (fun a b ha hb hab hba => ?_)
    (pairwise_sortBy htotal htrans items) (pairwise_sortBy htotal htrans others)
  have ha := (sortBy_perm before items).mem_iff.mp ha
  have hb := h.mem_iff.mpr ((sortBy_perm before others).mem_iff.mp hb)
  exact hdistinct a ha b hb hab hba

end Total

/-! ### By a key -/

section Key
variable [LE κ] [DecidableLE κ] (key : α → κ)

theorem sortOn_perm (items : List α) : (sortOn key items).Perm items := sortBy_perm _ items

@[simp] theorem mem_sortOn {item : α} {items : List α} :
    item ∈ sortOn key items ↔ item ∈ items :=
  (sortOn_perm key items).mem_iff

@[simp] theorem length_sortOn (items : List α) : (sortOn key items).length = items.length :=
  (sortOn_perm key items).length_eq

@[simp] theorem sortOn_nil : sortOn key ([] : List α) = [] := rfl

theorem sortOn_cons (item : α) (items : List α) :
    sortOn key (item :: items) =
      insertBy (fun a b => decide (key a ≤ key b)) item (sortOn key items) := rfl

theorem sortOn_of_pairwise {items : List α} (h : items.Pairwise fun a b => key a ≤ key b) :
    sortOn key items = items :=
  sortBy_of_pairwise _ items (h.imp fun hab => decide_eq_true hab)

/-- What leaves the keys alone may be done before sorting or after it. -/
theorem sortOn_map {β : Type} (key' : β → κ) (f : α → β) (h : ∀ a, key' (f a) = key a)
    (items : List α) : sortOn key' (items.map f) = (sortOn key items).map f := by
  have hitems : List.Forall₂ (fun b a => b = f a) (items.map f) items :=
    List.forall₂_map_left_iff.mpr (List.forall₂_same.mpr fun _ _ => rfl)
  have hsorted : List.Forall₂ (fun b a => b = f a) (sortOn key' (items.map f))
      (sortOn key items) :=
    forall₂_sortBy (fun _ a ha _ b hb => by rw [ha, hb, h, h]) hitems
  exact List.forall₂_eq_eq_eq ▸ List.forall₂_map_right_iff.mpr hsorted

end Key

section Linear
variable [LE κ] [DecidableLE κ] [Std.IsLinearOrder κ] (key : α → κ)

theorem le_total_of_key (a b : α) :
    decide (key a ≤ key b) = true ∨ decide (key b ≤ key a) = true := by
  rcases Std.IsLinearPreorder.le_total (key a) (key b) with h | h
  · exact .inl (decide_eq_true h)
  · exact .inr (decide_eq_true h)

theorem le_trans_of_key (a b c : α) (hab : decide (key a ≤ key b) = true)
    (hbc : decide (key b ≤ key c) = true) : decide (key a ≤ key c) = true :=
  decide_eq_true (Std.IsPreorder.le_trans _ _ _ (of_decide_eq_true hab) (of_decide_eq_true hbc))

theorem pairwise_sortOn (items : List α) :
    (sortOn key items).Pairwise fun a b => key a ≤ key b :=
  (pairwise_sortBy (le_total_of_key key) (le_trans_of_key key) items).imp of_decide_eq_true

/-- Items that a key tells apart are in strictly ascending order. -/
theorem pairwise_lt_sortOn [LT κ] [Std.LawfulOrderLT κ] {items : List α}
    (hdistinct : (items.map key).Nodup) :
    (sortOn key items).Pairwise fun a b => key a < key b := by
  have hkeys := ((sortOn_perm key items).map key).nodup_iff.mpr hdistinct
  exact ((pairwise_sortOn key items).and (List.pairwise_map.mp hkeys)).imp
    fun ⟨hle, hne⟩ => Std.lt_of_le_of_ne hle hne

@[simp] theorem sortOn_sortOn (items : List α) :
    sortOn key (sortOn key items) = sortOn key items :=
  sortOn_of_pairwise key (pairwise_sortOn key items)

/-- An item passes only items of larger keys on its way, so none of its own key. -/
theorem filter_insertBy [DecidableEq κ] (k : κ) (item : α) (items : List α) :
    (insertBy (fun a b => decide (key a ≤ key b)) item items).filter (key · = k) =
      (item :: items).filter (key · = k) := by
  induction items with
  | nil => rfl
  | cons first rest ih =>
    rw [insertBy]
    split
    · rfl
    · next hle =>
      have hne : ¬(key item = k ∧ key first = k) := fun h =>
        hle (decide_eq_true (by rw [h.1, h.2]; exact Std.IsPreorder.le_refl k))
      rw [List.filter_cons, ih]
      by_cases hitem : key item = k <;> by_cases hfirst : key first = k <;>
        simp_all

/-- Sorting is stable. -/
theorem filter_sortOn [DecidableEq κ] (k : κ) (items : List α) :
    (sortOn key items).filter (key · = k) = items.filter (key · = k) := by
  induction items with
  | nil => rfl
  | cons item rest ih =>
    rw [sortOn_cons, filter_insertBy, List.filter_cons, List.filter_cons, ih]

omit [DecidableLE κ] in
/-- Items in order are determined by what there is of each key. -/
theorem eq_of_pairwise_of_filter [DecidableEq κ] {items others : List α}
    (hitems : items.Pairwise fun a b => key a ≤ key b)
    (hothers : others.Pairwise fun a b => key a ≤ key b)
    (h : ∀ k, items.filter (key · = k) = others.filter (key · = k)) : items = others := by
  have hmem (item : α) : item ∈ items ↔ item ∈ others := by
    have hkey := congrArg (item ∈ ·) (h (key item))
    simpa using hkey
  induction hitems generalizing others with
  | nil => exact (List.eq_nil_iff_forall_not_mem.mpr fun a ha => nomatch (hmem a).mpr ha).symm
  | @cons item rest hitem _ ih =>
    cases hothers with
    | nil => exact nomatch (hmem item).mp (List.mem_cons_self ..)
    | @cons other more hother hmore =>
      -- Each list starts with an item of the least key, and the first of these is the same.
      have hkey : key item = key other := by
        refine Std.IsPartialOrder.le_antisymm _ _ ?_ ?_
        · rcases List.mem_cons.mp ((hmem other).mpr (List.mem_cons_self ..)) with hsame | hrest
          · rw [hsame]
            exact Std.IsPreorder.le_refl _
          · exact hitem other hrest
        · rcases List.mem_cons.mp ((hmem item).mp (List.mem_cons_self ..)) with hsame | hmore
          · rw [hsame]
            exact Std.IsPreorder.le_refl _
          · exact hother item hmore
      have hfirst := h (key item)
      rw [List.filter_cons_of_pos (by simp), List.filter_cons_of_pos (by simp [hkey])] at hfirst
      obtain rfl := (List.cons.inj hfirst).1
      have hrest (k : κ) : rest.filter (key · = k) = more.filter (key · = k) := by
        have hk := h k
        rw [List.filter_cons, List.filter_cons] at hk
        split at hk
        · exact (List.cons.inj hk).2
        · exact hk
      rw [ih hmore hrest fun a => ?_]
      have hkey := congrArg (a ∈ ·) (hrest (key a))
      simpa using hkey

/-- Items may be left out before sorting or after it. -/
theorem filter_sortOn_comm [DecidableEq κ] (p : α → Bool) (items : List α) :
    (sortOn key items).filter p = sortOn key (items.filter p) := by
  refine eq_of_pairwise_of_filter key ((pairwise_sortOn key items).filter p)
    (pairwise_sortOn key _) fun k => ?_
  rw [List.filter_comm, filter_sortOn, filter_sortOn, List.filter_comm]

/-- What there is of each key, and in which order, is all that sorting depends on. -/
theorem sortOn_eq_of_filter [DecidableEq κ] {items others : List α}
    (h : ∀ k, items.filter (key · = k) = others.filter (key · = k)) :
    sortOn key items = sortOn key others :=
  eq_of_pairwise_of_filter key (pairwise_sortOn key items) (pairwise_sortOn key others) fun k => by
    rw [filter_sortOn, filter_sortOn, h]

omit [LE κ] [DecidableLE κ] [Std.IsLinearOrder κ] in
/-- Of items that a key tells apart, there is at most one of each key. -/
theorem filter_eq_of_perm [DecidableEq κ] {items others : List α} (h : items.Perm others)
    (hdistinct : (items.map key).Nodup) (k : κ) :
    items.filter (key · = k) = others.filter (key · = k) := by
  induction h with
  | nil => rfl
  | cons item _ ih =>
    rw [List.filter_cons, List.filter_cons, ih (List.nodup_cons.mp hdistinct).2]
  | swap first second rest =>
    have hne : key second ≠ key first := fun hsame =>
      (List.nodup_cons.mp hdistinct).1 (hsame ▸ List.mem_cons_self ..)
    by_cases hsecond : key second = k
    · have hfirst : key first ≠ k := fun hfirst => hne (hsecond.trans hfirst.symm)
      simp [hsecond, hfirst]
    · simp [List.filter_cons, hsecond]
  | trans hfirst _ ih₁ ih₂ =>
    rw [ih₁ hdistinct, ih₂ ((hfirst.map key).nodup_iff.mp hdistinct)]

/-- Where a key tells the items apart, the order they came in does not show any more. -/
theorem sortOn_eq_of_perm_of_inj {items others : List α}
    (hinj : ∀ a ∈ items, ∀ b ∈ items, key a = key b → a = b) (h : items.Perm others) :
    sortOn key items = sortOn key others := by
  refine sortBy_eq_of_perm (le_total_of_key key) (le_trans_of_key key)
    (fun a ha b hb hab hba => hinj a ha b hb ?_) h
  exact Std.IsPartialOrder.le_antisymm _ _ (of_decide_eq_true hab) (of_decide_eq_true hba)

theorem sortOn_eq_of_perm {items others : List α} (h : items.Perm others)
    (hdistinct : (items.map key).Nodup) : sortOn key items = sortOn key others :=
  sortOn_eq_of_perm_of_inj key
    (fun _ ha _ hb hab => List.inj_on_of_nodup_map hdistinct ha hb hab) h

omit [LE κ] [DecidableLE κ] [Std.IsLinearOrder κ] in
theorem find?_eq_head?_filter [DecidableEq κ] (k : κ) (items : List α) :
    items.find? (key · == k) = (items.filter (key · = k)).head? := by
  rw [List.head?_filter]
  rfl

theorem find?_sortOn [DecidableEq κ] (k : κ) (items : List α) :
    (sortOn key items).find? (key · == k) = items.find? (key · == k) := by
  rw [find?_eq_head?_filter, find?_eq_head?_filter, filter_sortOn]

omit [LE κ] [DecidableLE κ] [Std.IsLinearOrder κ] in
theorem find?_eq_of_perm [DecidableEq κ] {items others : List α} (h : items.Perm others)
    (hdistinct : (items.map key).Nodup) (k : κ) :
    items.find? (key · == k) = others.find? (key · == k) := by
  rw [find?_eq_head?_filter, find?_eq_head?_filter, filter_eq_of_perm key h hdistinct]

end Linear

/-! ### Each item once -/

section Once
variable [BEq α] [LawfulBEq α]

theorem nodup_eraseDups (items : List α) : items.eraseDups.Nodup := by
  -- What is left of the rest gets shorter, but is not the rest itself.
  induction hlength : items.length using Nat.strongRecOn generalizing items with
  | _ length ih =>
    cases items with
    | nil => exact .nil
    | cons item rest =>
      have hshorter : (rest.filter fun other => !other == item).length < length := by
        have := List.length_filter_le (fun other => !other == item) rest
        rw [List.length_cons] at hlength
        omega
      rw [List.eraseDups_cons, List.nodup_cons]
      refine ⟨fun hmem => ?_, ih _ hshorter _ rfl⟩
      have hother := (List.mem_filter.mp (List.mem_eraseDups.mp hmem)).2
      simp at hother

theorem eraseDups_of_nodup {items : List α} (h : items.Nodup) : items.eraseDups = items := by
  induction items with
  | nil => rfl
  | cons item rest ih =>
    have ⟨hitem, hrest⟩ := List.nodup_cons.mp h
    have hothers : rest.filter (fun other => !other == item) = rest := by
      refine List.filter_eq_self.mpr fun other hother => ?_
      have hne : other ≠ item := fun hsame => hitem (hsame ▸ hother)
      simp [hne]
    rw [List.eraseDups_cons, hothers, ih hrest]

/-- The items stand in the order of their first places. -/
theorem pairwise_idxOf_eraseDups (items : List α) :
    items.eraseDups.Pairwise fun a b => items.idxOf a < items.idxOf b := by
  induction items using List.reverseRecOn with
  | nil => exact .nil
  | append_singleton items item ih =>
    have hkeep {a : α} (ha : a ∈ items.eraseDups) :
        (items ++ [item]).idxOf a = items.idxOf a :=
      List.idxOf_append_of_mem (List.mem_eraseDups.mp ha)
    have hold := ih.imp_of_mem (S := fun a b => (items ++ [item]).idxOf a <
      (items ++ [item]).idxOf b) fun ha hb hlt => by rwa [hkeep ha, hkeep hb]
    rw [List.eraseDups_append]
    by_cases hitem : item ∈ items
    · have hnone : ([item].removeAll items).eraseDups = [] := by simp [List.removeAll, hitem]
      rw [hnone, List.append_nil]
      exact hold
    · have hlast : ([item].removeAll items).eraseDups = [item] := by
        simp [List.removeAll, hitem, List.eraseDups_cons]
      rw [hlast, List.pairwise_append]
      refine ⟨hold, List.pairwise_singleton _ _, fun a ha b hb => ?_⟩
      obtain rfl := List.mem_singleton.mp hb
      rw [hkeep ha, List.idxOf_append, if_neg hitem]
      exact Nat.lt_add_left _ (List.idxOf_lt_length_iff.mpr (List.mem_eraseDups.mp ha))

/-- The same members, each once. -/
theorem eraseDups_perm {items others : List α}
    (h : ∀ item, item ∈ items ↔ item ∈ others) : items.eraseDups.Perm others.eraseDups :=
  (List.perm_ext_iff_of_nodup (nodup_eraseDups items) (nodup_eraseDups others)).mpr fun item => by
    rw [List.mem_eraseDups, List.mem_eraseDups, h]

/-- Keeping each item once goes by nothing but which items are the same. -/
theorem forall₂_eraseDups {β : Type} [BEq β] [LawfulBEq β] {R : α → β → Prop}
    (h : ∀ a a', R a a' → ∀ b b', R b b' → (a = b ↔ a' = b')) {items : List α} {others : List β}
    (hitems : List.Forall₂ R items others) :
    List.Forall₂ R items.eraseDups others.eraseDups := by
  induction hlength : items.length using Nat.strongRecOn generalizing items others with
  | _ length ih =>
    cases hitems with
    | nil => exact .nil
    | @cons first first' rest rest' hfirst hrest =>
      have hshorter : (rest.filter fun other => !other == first).length < length := by
        have := List.length_filter_le (fun other => !other == first) rest
        rw [List.length_cons] at hlength
        omega
      rw [List.eraseDups_cons, List.eraseDups_cons]
      refine .cons hfirst (ih _ hshorter (List.rel_filter (fun a b hab => ?_) hrest) rfl)
      have hsame := h a b hab first first' hfirst
      by_cases ha : a = first <;> simp_all

/-- Keeping each item once and sorting them is done in one go. -/
theorem sortOn_eraseDups_sortOn [LE κ] [DecidableLE κ] [Std.IsLinearOrder κ] (key : α → κ)
    (items : List α) :
    sortOn key (sortOn key items.eraseDups).eraseDups = sortOn key items.eraseDups := by
  have hnodup : (sortOn key items.eraseDups).Nodup :=
    (sortOn_perm key _).nodup_iff.mpr (nodup_eraseDups items)
  rw [eraseDups_of_nodup hnodup, sortOn_sortOn]

end Once
end EventPattern
