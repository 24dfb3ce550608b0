import EventPattern.Document.Problem
import Mathlib.Data.List.Forall2

/-! When a gathering of checks passes, and what it finds.

What is put together of checks passes exactly when each of them does, and then holds the values
of all of them. What it finds are the findings of all of them, in order. -/
namespace EventPattern.Checked

variable {α β γ : Type}

@[simp] theorem fail_ne_ok (place : Location) (problem : Problem) (a : α) :
    (fail place problem : Checked α) ≠ ok a := nofun

@[simp] theorem ok_eq_ok (a b : α) : (ok a : Checked α) = ok b ↔ a = b :=
  ⟨fun h => by cases h; rfl, fun h => by rw [h]⟩

@[simp] theorem map_eq_ok (f : α → β) (a : Checked α) (b : β) :
    a.map f = ok b ↔ ∃ x, a = ok x ∧ f x = b := by
  cases a with
  | ok x => simp [map]
  | failed first more => simp [map]

@[simp] theorem fmap_eq_ok (f : α → β) (a : Checked α) (b : β) :
    (f <$> a : Checked β) = ok b ↔ ∃ x, a = ok x ∧ f x = b := map_eq_ok f a b

@[simp] theorem both_eq_ok (a : Checked α) (b : Checked β) (p : α × β) :
    a.both b = ok p ↔ a = ok p.1 ∧ b = ok p.2 := by
  cases a <;> cases b <;> simp [both, Prod.ext_iff]

@[simp] theorem map₂_eq_ok (f : α → β → γ) (a : Checked α) (b : Checked β) (c : γ) :
    map₂ f a b = ok c ↔ ∃ x y, a = ok x ∧ b = ok y ∧ f x y = c := by
  simp [map₂, and_assoc]

@[simp] theorem seq_eq_ok (f : Checked (α → β)) (a : Checked α) (b : β) :
    (f <*> a : Checked β) = ok b ↔ ∃ g x, f = ok g ∧ a = ok x ∧ g x = b :=
  map₂_eq_ok _ f a b

@[simp] theorem also_eq_ok (first : Checked Unit) (second : Checked α) (a : α) :
    also first second = ok a ↔ first = ok () ∧ second = ok a := by
  rw [also, map₂_eq_ok]
  constructor
  · intro h
    obtain ⟨⟨⟩, x, hfirst, hsecond, rfl⟩ := h
    exact ⟨hfirst, hsecond⟩
  · intro h
    obtain ⟨hfirst, hsecond⟩ := h
    exact ⟨(), a, hfirst, hsecond, rfl⟩

@[simp] theorem andThen_eq_ok (a : Checked α) (next : α → Checked β) (b : β) :
    a.andThen next = ok b ↔ ∃ x, a = ok x ∧ next x = ok b := by
  cases a with
  | ok x => simp [andThen]
  | failed first more => simp [andThen]

@[simp] theorem report_eq_ok (findings : List Finding) (u : Unit) :
    report findings = ok u ↔ findings = [] := by
  cases findings <;> simp [report]

theorem all_eq_ok (checks : List (Checked α)) (values : List α) :
    all checks = ok values ↔ List.Forall₂ (fun check value => check = ok value) checks values := by
  induction checks generalizing values with
  | nil => simp [all, eq_comm]
  | cons first rest ih =>
    rw [all, map₂_eq_ok, List.forall₂_cons_left_iff]
    constructor
    · intro h
      obtain ⟨x, xs, hx, hxs, rfl⟩ := h
      exact ⟨x, xs, hx, (ih xs).mp hxs, rfl⟩
    · intro h
      obtain ⟨x, xs, hx, hxs, rfl⟩ := h
      exact ⟨x, xs, hx, (ih xs).mpr hxs, rfl⟩

/-! ### Findings -/

@[simp] theorem findings_report (findings : List Finding) :
    (report findings).findings = findings := by
  cases findings <;> rfl

@[simp] theorem findings_fmap (f : α → β) (a : Checked α) : (f <$> a).findings = a.findings :=
  findings_map f a

@[simp] theorem findings_seq (f : Checked (α → β)) (a : Checked α) :
    (f <*> a).findings = f.findings ++ a.findings := findings_map₂ _ f a

@[simp] theorem findings_also (first : Checked Unit) (second : Checked α) :
    (also first second).findings = first.findings ++ second.findings := findings_map₂ _ first second

end EventPattern.Checked
