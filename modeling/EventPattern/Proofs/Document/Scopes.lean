import EventPattern.Document.Grammar
import EventPattern.Proofs.Document.Gathering

/-! What a check may speak of.

A check is told a place, and everything that it finds is there or further in (`Stays`). Whether a
finding lies in a scope is asked of its location and not of how that is written, since the name of
an unknown key may look like a path. Two keys of one object hold nothing in common, and neither do
two items of one array; so of all the parts of a value, only one can find anything in a scope that
lies in one part of it (`Finding.within_flatMap`). -/
namespace EventPattern

namespace Location

/-- The place is the scope or lies in it. -/
def holds (scope : Location) : Location → Bool
  | .root => scope = .root
  | .key parent name => scope = .key parent name || scope.holds parent
  | .index parent position => scope = .index parent position || scope.holds parent

variable {scope place : Location}

@[simp] theorem holds_refl (scope : Location) : scope.holds scope = true := by
  cases scope <;> simp [holds]

theorem holds_key (h : scope.holds place = true) (name : String) :
    scope.holds (.key place name) = true := by
  simp [holds, h]

theorem holds_index (h : scope.holds place = true) (position : Nat) :
    scope.holds (.index place position) = true := by
  simp [holds, h]

theorem holds_field (scope : Location) (name : String) : scope.holds (.key scope name) = true :=
  holds_key (holds_refl scope) name

theorem holds_item (scope : Location) (position : Nat) :
    scope.holds (.index scope position) = true := holds_index (holds_refl scope) position

theorem holds_trans {outer : Location} (houter : outer.holds scope = true)
    (h : scope.holds place = true) : outer.holds place = true := by
  induction place with
  | root => grind [holds]
  | key parent name ih => grind [holds]
  | index parent position ih => grind [holds]

/-- Of two scopes that hold one place, one holds the other. -/
theorem holds_or_holds {other : Location} (h : scope.holds place = true)
    (hother : other.holds place = true) :
    scope.holds other = true ∨ other.holds scope = true := by
  induction place with
  | root => grind [holds]
  | key parent name ih => grind [holds]
  | index parent position ih => grind [holds]

theorem sizeOf_le_of_holds (h : scope.holds place = true) : sizeOf scope ≤ sizeOf place := by
  induction place with
  | root => grind [holds]
  | key parent name ih => grind [holds, key.sizeOf_spec]
  | index parent position ih => grind [holds, index.sizeOf_spec]

theorem not_key_holds (parent : Location) (name : String) :
    ¬ (key parent name).holds parent = true := by
  intro h
  have hsize := sizeOf_le_of_holds h
  rw [key.sizeOf_spec] at hsize
  omega

theorem not_index_holds (parent : Location) (position : Nat) :
    ¬ (index parent position).holds parent = true := by
  intro h
  have hsize := sizeOf_le_of_holds h
  rw [index.sizeOf_spec] at hsize
  omega

/-- Different keys of an object hold nothing in common. -/
theorem eq_of_holds_key {name other : String} (h : (key scope name).holds place = true)
    (hother : (key scope other).holds place = true) : name = other := by
  have hkeys {name other : String} (h : (key scope name).holds (key scope other) = true) :
      name = other := by
    rw [holds, Bool.or_eq_true, decide_eq_true_eq] at h
    exact (key.inj (h.resolve_right (not_key_holds scope name))).2
  exact (holds_or_holds h hother).elim hkeys fun h => (hkeys h).symm

/-- And so do different items of an array. -/
theorem eq_of_holds_index {i j : Nat} (h : (index scope i).holds place = true)
    (hother : (index scope j).holds place = true) : i = j := by
  have hindices {i j : Nat} (h : (index scope i).holds (index scope j) = true) : i = j := by
    rw [holds, Bool.or_eq_true, decide_eq_true_eq] at h
    exact (index.inj (h.resolve_right (not_index_holds scope i))).2
  exact (holds_or_holds h hother).elim hindices fun h => (hindices h).symm

end Location

/-! ### Findings in a scope -/

/-- Nothing is found outside of the scope. -/
def StaysIn (scope : Location) (findings : List Finding) : Prop :=
  ∀ f ∈ findings, scope.holds f.place = true

/-- Those of the findings that are in the scope. -/
def Finding.within (scope : Location) (findings : List Finding) : List Finding :=
  findings.filter (scope.holds ·.place)

section Scopes
variable {scope : Location} {findings : List Finding}

@[simp] theorem staysIn_nil (scope : Location) : StaysIn scope [] := nofun

@[simp] theorem staysIn_cons (scope : Location) (f : Finding) (rest : List Finding) :
    StaysIn scope (f :: rest) ↔ scope.holds f.place = true ∧ StaysIn scope rest :=
  List.forall_mem_cons

@[simp] theorem staysIn_append (scope : Location) (a b : List Finding) :
    StaysIn scope (a ++ b) ↔ StaysIn scope a ∧ StaysIn scope b := List.forall_mem_append

theorem StaysIn.mono {outer : Location} (h : StaysIn scope findings)
    (houter : outer.holds scope = true) : StaysIn outer findings :=
  fun f hf => Location.holds_trans houter (h f hf)

theorem StaysIn.of_key {key : String} (h : StaysIn (.key scope key) findings) :
    StaysIn scope findings := h.mono (Location.holds_field scope key)

theorem StaysIn.of_index {i : Nat} (h : StaysIn (.index scope i) findings) :
    StaysIn scope findings := h.mono (Location.holds_item scope i)

theorem StaysIn.within_eq (h : StaysIn scope findings) : Finding.within scope findings = findings :=
  List.filter_eq_self.mpr h

theorem Finding.within_append (scope : Location) (a b : List Finding) :
    within scope (a ++ b) = within scope a ++ within scope b := List.filter_append ..

/-- Where only one item can find anything in a scope, the others drop out. -/
theorem Finding.within_flatMap {β κ : Type} (key : β → κ) {items : List β}
    {found : β → List Finding} {item : β} (hkeys : (items.map key).Nodup) (hitem : item ∈ items)
    (hothers : ∀ other ∈ items, key other ≠ key item → within scope (found other) = []) :
    within scope (items.flatMap found) = within scope (found item) := by
  induction items with
  | nil => cases hitem
  | cons first rest ih =>
    obtain ⟨hfirst, hrest⟩ := List.nodup_cons.mp hkeys
    obtain ⟨hhere, hthere⟩ := List.forall_mem_cons.mp hothers
    rw [List.flatMap_cons, within_append]
    rcases List.mem_cons.mp hitem with rfl | hitem
    · have hnone : within scope (rest.flatMap found) = [] := by
        refine List.filter_eq_nil_iff.mpr fun f hf hin => ?_
        obtain ⟨other, hother, hf⟩ := List.mem_flatMap.mp hf
        have hne : key other ≠ key item := fun hsame =>
          hfirst (hsame ▸ List.mem_map_of_mem hother)
        exact List.filter_eq_nil_iff.mp (hthere other hother hne) f hf hin
      rw [hnone, List.append_nil]
    · have hne : key first ≠ key item := fun hsame =>
        hfirst (hsame ▸ List.mem_map_of_mem hitem)
      rw [hhere hne, List.nil_append, ih hrest hitem hthere]

/-- What stays in one field is not found in a scope that lies in another. -/
theorem StaysIn.within_other_key {place : Location} {key other : String}
    (h : StaysIn (.key place other) findings) (hne : other ≠ key)
    (hscope : (Location.key place key).holds scope = true) :
    Finding.within scope findings = [] := by
  refine List.filter_eq_nil_iff.mpr fun f hf hin => hne ?_
  exact Location.eq_of_holds_key (h f hf) (Location.holds_trans hscope hin)

theorem StaysIn.within_other_index {place : Location} {i j : Nat}
    (h : StaysIn (.index place j) findings) (hne : j ≠ i)
    (hscope : (Location.index place i).holds scope = true) :
    Finding.within scope findings = [] := by
  refine List.filter_eq_nil_iff.mpr fun f hf hin => hne ?_
  exact Location.eq_of_holds_index (h f hf) (Location.holds_trans hscope hin)

end Scopes

theorem Checked.staysIn_andThen {α β : Type} {scope : Location} {outcome : Checked α}
    {next : α → Checked β} (h : StaysIn scope outcome.findings)
    (hnext : ∀ a, StaysIn scope (next a).findings) :
    StaysIn scope (outcome.andThen next).findings := by
  cases outcome with
  | ok a => exact hnext a
  | failed first more => exact h

namespace Document

open Json (Fields)

variable {α : Type}

/-- The check finds nothing outside of the place that it is told. -/
def Stays (check : Check α) : Prop := ∀ place json, StaysIn place (check place json).findings

/-! ### Values of any shape -/

theorem staysIn_ok (place : Location) (value : α) :
    StaysIn place (Checked.ok value).findings := staysIn_nil place

theorem staysIn_fail (place : Location) (problem : Problem) :
    StaysIn place (Checked.fail place problem : Checked α).findings := by
  simp [Checked.fail, Checked.findings]

theorem staysIn_ite {place : Location} {p : Prop} [Decidable p] {a b : Checked α}
    (ha : StaysIn place a.findings) (hb : StaysIn place b.findings) :
    StaysIn place (if p then a else b).findings := by
  split
  · exact ha
  · exact hb

section Values
variable (place : Location) (fields : Fields)

theorem unknownFields_staysIn (allowed : List String) :
    StaysIn place (unknownFields place allowed fields).findings := by
  rw [unknownFields, Checked.findings_report]
  intro f hf
  obtain ⟨name, -, rfl⟩ := List.mem_map.mp hf
  exact Location.holds_field place name

@[simp] theorem anyObject_stays : Stays anyObject := by
  intro place json
  cases json <;> first
    | exact staysIn_ok place _
    | exact staysIn_fail place _

theorem object_stays {allowed : List String} {read : Location → Fields → Checked α}
    (h : ∀ place fields, StaysIn place (read place fields).findings) :
    Stays (object allowed read) := by
  intro place json
  cases json <;> first
    | exact staysIn_fail place _
    | rw [object, Checked.findings_also, staysIn_append]
      exact ⟨unknownFields_staysIn place _ allowed, h place _⟩

variable {check : Check α} (h : Stays check) (key : String)
include h

theorem required_staysIn_key :
    StaysIn (.key place key) (required place fields key check).findings := by
  unfold required
  split
  · exact h _ _
  · exact staysIn_fail _ _

theorem defaulting_staysIn_key (default : α) :
    StaysIn (.key place key) (defaulting place fields key default check).findings := by
  unfold defaulting
  split
  · exact h _ _
  · exact staysIn_ok _ _

@[simp] theorem required_staysIn : StaysIn place (required place fields key check).findings :=
  (required_staysIn_key place fields h key).of_key

@[simp] theorem defaulting_staysIn (default : α) :
    StaysIn place (defaulting place fields key default check).findings :=
  (defaulting_staysIn_key place fields h key default).of_key

@[simp] theorem optional_staysIn : StaysIn place (optional place fields key check).findings := by
  refine defaulting_staysIn place fields (fun place json => ?_) key none
  rw [Checked.findings_map]
  exact h place json

@[simp] theorem list_stays : Stays (list check) := by
  intro place json
  cases json with
  | array items =>
    rw [list, Checked.findings_all]
    intro f hf
    obtain ⟨outcome, houtcome, hf⟩ := List.mem_flatMap.mp hf
    obtain ⟨⟨item, i⟩, -, rfl⟩ := List.mem_map.mp houtcome
    exact (h (.index place i) item).of_index f hf
  | _ => exact staysIn_fail place _

end Values

@[simp] theorem string_stays : Stays string := by
  intro place json
  cases json <;> first
    | exact staysIn_ok place _
    | exact staysIn_fail place _

@[simp] theorem nonEmpty_stays (what : String) : Stays (nonEmpty what) := by
  intro place json
  exact Checked.staysIn_andThen (string_stays place json) fun text =>
    staysIn_ite (staysIn_fail place _) (staysIn_ok place _)

@[simp] theorem identifier_stays : Stays identifier := nonEmpty_stays "id"

/-! ### Intervals -/

@[simp] theorem tick_stays : Stays tick := by
  intro place json
  unfold tick
  split
  · split
    · exact staysIn_ok place _
    · exact staysIn_ite (staysIn_fail place _)
        (staysIn_ite (staysIn_fail place _) (staysIn_ok place _))
  · exact staysIn_fail place _

@[simp] theorem span_staysIn (place : Location) (fields : Fields) :
    StaysIn place (span place fields).findings := by
  exact Checked.staysIn_andThen (by simp) fun ticks =>
    staysIn_ite (staysIn_fail (.key place "end") _).of_key (staysIn_ok place _)

@[simp] theorem predicate_stays : Stays predicate := object_stays fun place fields => by simp

@[simp] theorem interval_stays : Stays interval := object_stays fun place fields => by simp

/-! ### Parameters -/

theorem paramValue_stays (kind : ParamKind) : Stays (paramValue kind) := by
  intro place json
  cases kind with
  | comparator => exact staysIn_ite (staysIn_ok place _) (staysIn_fail place _)
  | threshold | amount =>
    exact staysIn_ite (staysIn_ok place _)
      (staysIn_ite (staysIn_fail place _) (staysIn_fail place _))

theorem paramField_staysIn (place : Location) (field : String × Json) :
    StaysIn place (paramField place field).findings := by
  unfold paramField
  split
  · exact (staysIn_fail (.key place field.1) _).of_key
  · exact (paramValue_stays _ _ _).of_key

theorem paramFields_staysIn (place : Location) (fields : Fields) :
    StaysIn place (Checked.all (fields.map (paramField place))).findings := by
  rw [Checked.findings_all]
  intro f hf
  obtain ⟨outcome, houtcome, hf⟩ := List.mem_flatMap.mp hf
  obtain ⟨field, -, rfl⟩ := List.mem_map.mp houtcome
  exact paramField_staysIn place field f hf

@[simp] theorem params_stays : Stays params := by
  intro place json
  unfold params
  split
  · exact staysIn_ok place _
  · refine Checked.staysIn_andThen (anyObject_stays place _) fun fields => ?_
    rw [Checked.findings_map]
    exact paramFields_staysIn place fields

@[simp] theorem paramKey_stays : Stays paramKey := by
  intro place json
  refine Checked.staysIn_andThen (string_stays place json) fun name => ?_
  split
  · exact staysIn_ok place _
  · exact staysIn_fail place _

/-! ### Relations -/

@[simp] theorem endpoint_stays (known : Option (List String)) : Stays (endpoint known) := by
  intro place json
  refine Checked.staysIn_andThen (identifier_stays place json) fun id => ?_
  cases known with
  | none => exact staysIn_ok place _
  | some ids => exact staysIn_ite (staysIn_ok place _) (staysIn_fail place _)

@[simp] theorem legacyRelation_stays (known : Option (List String)) :
    Stays (legacyRelation known) := object_stays fun place fields => by simp

@[simp] theorem canonicalRelation_stays (known : Option (List String)) :
    Stays (canonicalRelation known) := object_stays fun place fields => by simp

/-! ### Constraints -/

@[simp] theorem legacyConstraint_stays : Stays legacyConstraint :=
  object_stays fun place fields => by simp

@[simp] theorem paramAssignment_staysIn (place : Location) (fields : Fields) :
    StaysIn place (paramAssignment place fields).findings := by
  have hvalue : Stays fun _ value => Checked.ok value := fun place value => staysIn_ok place value
  refine Checked.staysIn_andThen (by simp [hvalue]) fun pair => ?_
  rw [Checked.findings_map]
  exact (paramValue_stays _ _ _).of_key

theorem relationParam_stays : Stays relationParam := object_stays fun place fields => by simp

theorem note_stays : Stays note := object_stays fun place fields => by simp

@[simp] theorem canonicalConstraint_stays : Stays canonicalConstraint := by
  intro place json
  refine Checked.staysIn_andThen (anyObject_stays place json) fun fields => ?_
  exact Checked.staysIn_andThen (by simp) fun kind =>
    staysIn_ite (relationParam_stays place json)
      (staysIn_ite (note_stays place json) (staysIn_fail (.key place "kind") _).of_key)

/-! ### Documents -/

@[simp] theorem selection_stays : Stays selection := object_stays fun place fields => by simp

@[simp] theorem legacyConstraints_stays (known : Option (List String)) :
    Stays (legacyConstraints known) := object_stays fun place fields => by simp

@[simp] theorem metadata_stays : Stays metadata := object_stays fun place fields => by simp

@[simp] theorem canonicalConstraints_stays : Stays canonicalConstraints :=
  object_stays fun place fields => by simp

end Document
end EventPattern
