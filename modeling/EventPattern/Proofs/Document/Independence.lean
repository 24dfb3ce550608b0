import EventPattern.Proofs.Document.Places
import EventPattern.Proofs.Document.RepeatedIds
import EventPattern.Proofs.Document.Scopes
import EventPattern.Proofs.Sorting
import Mathlib.Data.List.Sigma

/-! No violation masks another.

What is found on a document are the unknown keys of its root and, field by field, what is found in
the value of the field (`checked_findings`). Of all the rest of the document a field knows nothing
but which ids the intervals have, and only the field of the relations asks for that
(`Version.parts_congr`). The same holds of the items in the lists of intervals, relations and
constraints, where an interval also knows the ids of those before it. So two documents that agree
in one place report the same there, whatever else is wrong with either of them (`unmasked`). -/
namespace EventPattern.Document

open Json (Fields)

variable {α : Type}

/-! ### Documents of a version -/

inductive Version where
  | legacy
  | canonical
deriving DecidableEq

namespace Version

def text : Version → String
  | legacy => legacyVersion
  | canonical => canonicalVersion

/-- The keys that the root may have. -/
def allowed : Version → List String
  | legacy => ["schemaVersion", "id", "name", "description", "createdAt", "updatedAt", "intervals",
      "constraints", "temporalExpression"]
  | canonical => ["schemaVersion", "id", "meta", "intervals", "relations", "constraints",
      "temporalExpression"]

/-- The field of the root that the relations are in. -/
def relationsKey : Version → String
  | legacy => "constraints"
  | canonical => "relations"

/-- Where the list of relations stands. -/
def relations : Version → Location
  | legacy => .key (.key .root "constraints") "temporal"
  | canonical => .key .root "relations"

/-- Where the list of constraints stands. -/
def constraints : Version → Location
  | legacy => .key (.key .root "constraints") "extra"
  | canonical => .key (.key .root "constraints") "constraints"

end Version

def HasVersion (v : Version) (input : Json) : Prop :=
  input.get? "schemaVersion" = some (.string v.text)

/-- The ids that the intervals have as they are written, when there is a list of them. -/
def writtenIds? (input : Json) : Option (List String) :=
  ((input.get? "intervals").bind Json.array?).map (·.filterMap Json.id?)

/-- The ids of the intervals before one of them. -/
def earlierIds (input : Json) (position : Nat) : List String :=
  ((input.itemsAt (.key .root "intervals")).take position).filterMap Json.id?

/-! ### What is reported -/

/-- The issues of an input, none if it is accepted. -/
def issues (input : Json) : List Issue :=
  match check input with
  | .ok _ => []
  | .error issues => issues

/-- What is found on an input in a scope. -/
def foundIn (scope : Location) (input : Json) : List Finding :=
  Finding.within scope (checked input).findings

theorem issues_perm (input : Json) :
    (issues input).Perm ((checked input).findings.map Finding.issue) := by
  unfold issues check
  cases checked input with
  | ok document => exact .refl _
  | failed first more => exact sortBy_perm _ _

/-! ### The fields of the root -/

/-- What is found where the root should have a field. -/
def foundNeeded (key : String) (check : Check α) : Option Json → List Finding
  | some value => (check (.key .root key) value).findings
  | none => [⟨.key .root key, .missingField key⟩]

/-- What is found where it may have one. -/
def foundPossible (key : String) (check : Check α) : Option Json → List Finding
  | some value => (check (.key .root key) value).findings
  | none => []

/-- What is found in the list of intervals, with the ids that are used more than once. -/
def foundIntervals (value? : Option Json) : List Finding :=
  repeatedIds (.key .root "intervals") [] ((value?.bind Json.array?).getD []).zipIdx ++
    foundNeeded "intervals" (list interval) value?

/-- A field of the root, and what is found in its value or in its absence, given the ids of the
intervals. -/
structure Part where
  key : String
  found : Option (List String) → Option Json → List Finding

/-- The fields of the root, in the order they are checked. -/
def Version.parts : Version → List Part
  | legacy => [
      ⟨"id", fun _ => foundNeeded "id" identifier⟩,
      ⟨"name", fun _ => foundNeeded "name" (nonEmpty "model name")⟩,
      ⟨"description", fun _ => foundPossible "description" string⟩,
      ⟨"createdAt", fun _ => foundPossible "createdAt" string⟩,
      ⟨"updatedAt", fun _ => foundPossible "updatedAt" string⟩,
      ⟨"intervals", fun _ => foundIntervals⟩,
      ⟨"constraints", fun ids => foundPossible "constraints" (legacyConstraints ids)⟩,
      ⟨"temporalExpression", fun _ => foundPossible "temporalExpression" selection⟩]
  | canonical => [
      ⟨"id", fun _ => foundNeeded "id" identifier⟩,
      ⟨"meta", fun _ => foundNeeded "meta" metadata⟩,
      ⟨"intervals", fun _ => foundIntervals⟩,
      ⟨"relations", fun ids => foundPossible "relations" (list (canonicalRelation ids))⟩,
      ⟨"constraints", fun _ => foundPossible "constraints" canonicalConstraints⟩,
      ⟨"temporalExpression", fun _ => foundPossible "temporalExpression" selection⟩]

/-- What is found in the keys of the root that the version does not have. -/
def Version.unknown (v : Version) (input : Json) : List Finding :=
  (unknownFields .root v.allowed (input.object?.getD [])).findings

theorem Version.unknown_object (v : Version) (fields : Fields) :
    v.unknown (.object fields) = (unknownFields .root v.allowed fields).findings := rfl

section Fields
variable (fields : Fields) (key : String) (check : Check α)

theorem findings_required :
    (required .root fields key check).findings = foundNeeded key check (fields.get? key) := by
  unfold required foundNeeded
  cases fields.get? key <;> rfl

theorem findings_defaulting (default : α) :
    (defaulting .root fields key default check).findings =
      foundPossible key check (fields.get? key) := by
  unfold defaulting foundPossible
  cases fields.get? key <;> rfl

theorem findings_optional :
    (optional .root fields key check).findings = foundPossible key check (fields.get? key) := by
  rw [optional, findings_defaulting]
  cases fields.get? key with
  | none => rfl
  | some value => exact Checked.findings_map some _

theorem findings_intervals :
    (intervals fields).findings = foundIntervals (fields.get? "intervals") := by
  rw [intervals, Checked.findings_also, Checked.findings_report, findings_required]
  rfl

end Fields

theorem legacyDocument_findings (fields : Fields) :
    (legacyDocument fields).findings = Version.legacy.unknown (.object fields) ++
      Version.legacy.parts.flatMap fun part =>
        part.found (intervalIds? fields) (fields.get? part.key) := by
  simp [legacyDocument, Version.unknown_object, Version.allowed, Version.parts, findings_required,
    findings_defaulting, findings_optional, findings_intervals]

theorem canonicalDocument_findings (fields : Fields) :
    (canonicalDocument fields).findings = Version.canonical.unknown (.object fields) ++
      Version.canonical.parts.flatMap fun part =>
        part.found (intervalIds? fields) (fields.get? part.key) := by
  simp [canonicalDocument, Version.unknown_object, Version.allowed, Version.parts,
    findings_required, findings_defaulting, findings_optional, findings_intervals]

section Inputs
variable {v : Version} {input : Json}

/-- **What is found on a document is found in one of its fields**, or is an unknown one. -/
theorem checked_findings (h : HasVersion v input) :
    (checked input).findings = v.unknown input ++ v.parts.flatMap fun part =>
      part.found (writtenIds? input) (input.get? part.key) := by
  cases input with
  | object fields =>
    have hget : Fields.get? fields "schemaVersion" = some (.string v.text) := h
    unfold checked
    cases v with
    | legacy =>
      simp only [hget]
      exact (Checked.findings_map _ _).trans (legacyDocument_findings fields)
    | canonical =>
      simp only [hget]
      exact (Checked.findings_map _ _).trans (canonicalDocument_findings fields)
  | _ => cases h

end Inputs

/-! ### One field among others -/

section Scopes
variable {place scope : Location} {fields : Fields} {key : String} {check : Check α}

/-- An unknown key of an object is in none of the fields that it may have. -/
theorem unknownFields_within {allowed : List String} (hkey : key ∈ allowed)
    (hscope : (Location.key place key).holds scope = true) :
    Finding.within scope (unknownFields place allowed fields).findings = [] := by
  rw [unknownFields, Checked.findings_report]
  refine List.filter_eq_nil_iff.mpr fun f hf hin => ?_
  obtain ⟨name, hname, rfl⟩ := List.mem_map.mp hf
  have hsame : key = name := Location.eq_of_holds_key (Location.holds_trans hscope hin)
    (Location.holds_refl _)
  have hunknown := (List.mem_filter.mp hname).2
  simp [← hsame, hkey] at hunknown

theorem object_within {allowed : List String} {read : Location → Fields → Checked α}
    (hkey : key ∈ allowed) (hscope : (Location.key place key).holds scope = true) :
    Finding.within scope (object allowed read place (.object fields)).findings =
      Finding.within scope (read place fields).findings := by
  rw [object, Checked.findings_also, Finding.within_append, unknownFields_within hkey hscope,
    List.nil_append]

theorem defaulting_within_other {other : String} (h : Stays check) (default : α)
    (hne : other ≠ key) (hscope : (Location.key place key).holds scope = true) :
    Finding.within scope (defaulting place fields other default check).findings = [] :=
  (defaulting_staysIn_key place fields h other default).within_other_key hne hscope

theorem foundNeeded_staysIn (h : Stays check) (value? : Option Json) :
    StaysIn (.key .root key) (foundNeeded key check value?) := by
  cases value? with
  | none => exact staysIn_fail (α := α) _ _
  | some value => exact h _ value

theorem foundPossible_staysIn (h : Stays check) (value? : Option Json) :
    StaysIn (.key .root key) (foundPossible key check value?) := by
  cases value? with
  | none => exact staysIn_nil _
  | some value => exact h _ value

/-- Of a list only the item itself is found at its index. -/
theorem list_within (h : Stays check) {items : List Json} {i : Nat} {item : Json}
    (hitem : items[i]? = some item) :
    Finding.within (.index place i) (list check place (.array items)).findings =
      (check (.index place i) item).findings := by
  have hentry : (item, i) ∈ items.zipIdx := List.mem_zipIdx_iff_getElem?.mpr hitem
  rw [list, Checked.findings_all, List.flatMap_map,
    Finding.within_flatMap Prod.snd (List.nodup_zipIdx_map_snd items) hentry
      fun other _ hne => (h _ other.1).within_other_index hne (Location.holds_refl _)]
  exact (h _ item).within_eq

theorem defaulting_within (h : Stays check) {items : List Json} {i : Nat} {item : Json}
    (default : List α) (hget : fields.get? key = some (.array items))
    (hitem : items[i]? = some item) :
    Finding.within (.index (.key place key) i)
        (defaulting place fields key default (list check)).findings =
      (check (.index (.key place key) i) item).findings := by
  rw [defaulting, hget]
  exact list_within h hitem

end Scopes

/-! ### The list of intervals -/

theorem repeatedAt_staysIn (place : Location) (earlier : List String) (entry : Json × Nat) :
    StaysIn (.index place entry.2) (repeatedAt place earlier entry) := by
  intro f hf
  obtain ⟨id, -, rfl⟩ := mem_repeatedAt hf
  exact Location.holds_field (.index place entry.2) "id"

theorem foundIntervals_eq (value? : Option Json) :
    foundIntervals value? =
      (((value?.bind Json.array?).getD []).zipIdx.flatMap fun entry =>
        repeatedAt (.key .root "intervals")
          ((((value?.bind Json.array?).getD []).take entry.2).filterMap Json.id?) entry) ++
      foundNeeded "intervals" (list interval) value? :=
  congrArg (· ++ _) (repeatedIds_eq_flatMap (.key .root "intervals") [] _)

theorem foundIntervals_staysIn (value? : Option Json) :
    StaysIn (.key .root "intervals") (foundIntervals value?) := by
  rw [foundIntervals_eq, staysIn_append]
  refine ⟨fun f hf => ?_, foundNeeded_staysIn (list_stays interval_stays) value?⟩
  obtain ⟨entry, -, hf⟩ := List.mem_flatMap.mp hf
  exact (repeatedAt_staysIn _ _ entry).of_index f hf

/-! ### Parts of the document -/

section Parts
variable {v : Version} {input : Json} {scope : Location}

theorem Version.keys_nodup (v : Version) : (v.parts.map Part.key).Nodup := by
  cases v <;> decide

theorem Version.keys_allowed (v : Version) : ∀ key ∈ v.parts.map Part.key, key ∈ v.allowed := by
  cases v <;> decide

theorem Version.parts_staysIn (v : Version) :
    ∀ part ∈ v.parts, ∀ ids value?, StaysIn (.key .root part.key) (part.found ids value?) := by
  cases v <;> simp [parts, foundNeeded_staysIn, foundPossible_staysIn, foundIntervals_staysIn]

/-- In one field, only the field itself has a say. -/
theorem foundIn_part (h : HasVersion v input) {part : Part} (hpart : part ∈ v.parts)
    (hscope : (Location.key .root part.key).holds scope = true) :
    foundIn scope input =
      Finding.within scope (part.found (writtenIds? input) (input.get? part.key)) := by
  have hkey := v.keys_allowed part.key (List.mem_map_of_mem hpart)
  rw [foundIn, checked_findings h, Finding.within_append, Version.unknown,
    unknownFields_within hkey hscope, List.nil_append,
    Finding.within_flatMap Part.key v.keys_nodup hpart fun other hother hne =>
      (v.parts_staysIn other hother _ _).within_other_key hne hscope]

/-- **What is found in a field depends on its value and the ids of the intervals.** -/
theorem foundIn_key (h : HasVersion v input) {part : Part} (hpart : part ∈ v.parts) :
    foundIn (.key .root part.key) input =
      part.found (writtenIds? input) (input.get? part.key) := by
  rw [foundIn_part h hpart (Location.holds_refl _)]
  exact (v.parts_staysIn part hpart _ _).within_eq

/-! ### The ids of the intervals -/

theorem endpoint_eq {ids others : Option (List String)} (h : Option.Rel SameIds ids others) :
    endpoint ids = endpoint others := by
  cases h with
  | none => rfl
  | some h =>
    funext place value
    simp only [endpoint, h.contains_eq]

/-- Without a list of intervals the ends of a relation only have to be ids. -/
theorem endpoint_none : endpoint none = identifier := by
  funext place value
  rw [endpoint]
  cases identifier place value <;> rfl

theorem legacyRelation_eq {ids others : Option (List String)} (h : Option.Rel SameIds ids others) :
    legacyRelation ids = legacyRelation others := by
  simp only [legacyRelation, endpoint_eq h]

theorem canonicalRelation_eq {ids others : Option (List String)}
    (h : Option.Rel SameIds ids others) : canonicalRelation ids = canonicalRelation others := by
  simp only [canonicalRelation, endpoint_eq h]

theorem legacyConstraints_eq {ids others : Option (List String)}
    (h : Option.Rel SameIds ids others) : legacyConstraints ids = legacyConstraints others := by
  simp only [legacyConstraints, legacyRelation_eq h]

/-- Only the field of the relations depends on the ids, and only on which there are. -/
theorem Version.parts_congr (v : Version) :
    ∀ part ∈ v.parts, ∀ ids others value?,
      (part.key = v.relationsKey → Option.Rel SameIds ids others) →
        part.found ids value? = part.found others value? := by
  cases v with
  | legacy =>
    have hrelations (ids others : Option (List String)) (value? : Option Json)
        (h : Option.Rel SameIds ids others) :
        foundPossible "constraints" (legacyConstraints ids) value? =
          foundPossible "constraints" (legacyConstraints others) value? := by
      rw [legacyConstraints_eq h]
    simpa [parts, relationsKey] using hrelations
  | canonical =>
    have hrelations (ids others : Option (List String)) (value? : Option Json)
        (h : Option.Rel SameIds ids others) :
        foundPossible "relations" (list (canonicalRelation ids)) value? =
          foundPossible "relations" (list (canonicalRelation others)) value? := by
      rw [canonicalRelation_eq h]
    simpa [parts, relationsKey] using hrelations

end Parts

/-! ### Items of a list -/

section Items
variable {v : Version} {input item : Json} {i : Nat}

theorem exists_array_of_at? {place : Location} (h : input.at? (.index place i) = some item) :
    ∃ items, input.at? place = some (.array items) ∧ items[i]? = some item := by
  obtain ⟨items, hitems, hitem⟩ := Option.bind_eq_some_iff.mp h
  obtain ⟨list, hlist, harray⟩ := Option.bind_eq_some_iff.mp hitems
  cases list with
  | array found =>
    cases harray
    exact ⟨items, hlist, hitem⟩
  | _ => cases harray

theorem exists_object_of_at? {place : Location} {name : String}
    (h : input.at? (.key place name) = some item) :
    ∃ fields, input.at? place = some (.object fields) ∧ Fields.get? fields name = some item := by
  obtain ⟨parent, hparent, hget⟩ := Option.bind_eq_some_iff.mp h
  cases parent with
  | object fields => exact ⟨fields, hparent, hget⟩
  | _ => cases hget

/-- An interval on its own, with the ids of those before it. -/
def foundInterval (earlier : List String) (position : Nat) (item : Json) : List Finding :=
  repeatedAt (.key .root "intervals") earlier (item, position) ++
    (interval (.index (.key .root "intervals") position) item).findings

theorem foundIn_interval (h : HasVersion v input)
    (hitem : input.at? (.index (.key .root "intervals") i) = some item) :
    foundIn (.index (.key .root "intervals") i) input =
      foundInterval (earlierIds input i) i item := by
  obtain ⟨items, hitems, hitem⟩ := exists_array_of_at? hitem
  have hget : input.get? "intervals" = some (.array items) := hitems
  have hearlier : earlierIds input i = (items.take i).filterMap Json.id? := by
    rw [earlierIds, Json.itemsAt, hitems]
    rfl
  have hpart : (⟨"intervals", fun _ => foundIntervals⟩ : Part) ∈ v.parts := by
    cases v <;> simp [Version.parts]
  have hentry : (item, i) ∈ items.zipIdx := List.mem_zipIdx_iff_getElem?.mpr hitem
  rw [foundIn_part h hpart (Location.holds_item _ i)]
  show Finding.within _ (foundIntervals (input.get? "intervals")) = _
  rw [hget, foundIntervals_eq, hearlier, Finding.within_append, foundNeeded,
    list_within interval_stays hitem]
  refine congrArg (· ++ _) ?_
  refine (Finding.within_flatMap Prod.snd (List.nodup_zipIdx_map_snd items) hentry
    fun other _ hne => ?_).trans ?_
  · exact (repeatedAt_staysIn _ _ other).within_other_index hne (Location.holds_refl _)
  · exact (repeatedAt_staysIn _ _ (item, i)).within_eq

/-- A relation on its own, with the ids of the intervals. -/
def Version.foundRelation (v : Version) (ids : Option (List String)) (position : Nat)
    (item : Json) : List Finding :=
  match v with
  | legacy => (legacyRelation ids (.index v.relations position) item).findings
  | canonical => (canonicalRelation ids (.index v.relations position) item).findings

/-- In a list of the constraints' field, the rest of the document has no say. -/
theorem foundIn_constraints {allowed : List String}
    {read : Option (List String) → Location → Fields → Checked α} (h : HasVersion v input)
    (hpart : ⟨"constraints", fun ids => foundPossible "constraints" (object allowed (read ids))⟩ ∈
      v.parts) {name : String} {items : List Json} (hname : name ∈ allowed)
    (hitems : input.at? (.key (.key .root "constraints") name) = some (.array items)) :
    ∃ fields, Fields.get? fields name = some (.array items) ∧
      foundIn (.index (.key (.key .root "constraints") name) i) input =
        Finding.within (.index (.key (.key .root "constraints") name) i)
          (read (writtenIds? input) (.key .root "constraints") fields).findings := by
  obtain ⟨fields, hfields, hget⟩ := exists_object_of_at? hitems
  have hvalue : input.get? "constraints" = some (.object fields) := hfields
  have hscope := Location.holds_index (Location.holds_field (.key .root "constraints") name) i
  refine ⟨fields, hget, ?_⟩
  rw [foundIn_part h hpart hscope, hvalue]
  exact object_within hname (Location.holds_item _ i)

theorem foundIn_relation (h : HasVersion v input)
    (hat : input.at? (.index v.relations i) = some item) :
    foundIn (.index v.relations i) input = v.foundRelation (writtenIds? input) i item := by
  cases v with
  | legacy =>
    obtain ⟨items, hitems, hitem⟩ := exists_array_of_at? hat
    have hpart : ⟨"constraints", fun ids => foundPossible "constraints" (legacyConstraints ids)⟩ ∈
        Version.legacy.parts := by simp [Version.parts]
    obtain ⟨fields, hget, hfound⟩ := foundIn_constraints h hpart (by decide) hitems
    refine hfound.trans ?_
    rw [Checked.findings_both, Finding.within_append,
      defaulting_within (legacyRelation_stays _) [] hget hitem,
      defaulting_within_other (list_stays legacyConstraint_stays) [] (by decide)
        (Location.holds_item _ i), List.append_nil]
    rfl
  | canonical =>
    obtain ⟨items, hitems, hitem⟩ := exists_array_of_at? hat
    have hget : input.get? "relations" = some (.array items) := hitems
    have hpart : ⟨"relations", fun ids => foundPossible "relations"
        (list (canonicalRelation ids))⟩ ∈ Version.canonical.parts := by simp [Version.parts]
    refine (foundIn_part h hpart (Location.holds_item _ i)).trans ?_
    rw [hget]
    exact list_within (canonicalRelation_stays _) hitem

/-- A constraint on its own. -/
def Version.foundConstraint (v : Version) (position : Nat) (item : Json) : List Finding :=
  match v with
  | legacy => (legacyConstraint (.index v.constraints position) item).findings
  | canonical => (canonicalConstraint (.index v.constraints position) item).findings

theorem foundIn_constraint (h : HasVersion v input)
    (hat : input.at? (.index v.constraints i) = some item) :
    foundIn (.index v.constraints i) input = v.foundConstraint i item := by
  cases v with
  | legacy =>
    obtain ⟨items, hitems, hitem⟩ := exists_array_of_at? hat
    have hpart : ⟨"constraints", fun ids => foundPossible "constraints" (legacyConstraints ids)⟩ ∈
        Version.legacy.parts := by simp [Version.parts]
    obtain ⟨fields, hget, hfound⟩ := foundIn_constraints h hpart (by decide) hitems
    refine hfound.trans ?_
    rw [Checked.findings_both, Finding.within_append,
      defaulting_within_other (list_stays (legacyRelation_stays _)) [] (by decide)
        (Location.holds_item _ i),
      defaulting_within legacyConstraint_stays [] hget hitem, List.nil_append]
    rfl
  | canonical =>
    obtain ⟨items, hitems, hitem⟩ := exists_array_of_at? hat
    have hpart : ⟨"constraints", fun _ => foundPossible "constraints" canonicalConstraints⟩ ∈
        Version.canonical.parts := by simp [Version.parts]
    obtain ⟨fields, hget, hfound⟩ := foundIn_constraints h hpart (by decide) hitems
    exact hfound.trans (defaulting_within canonicalConstraint_stays [] hget hitem)

end Items

/-! ### Two documents -/

/-- The issues of one document, and what it has in common with those of another. -/
structure Unmasked (v : Version) (a b : Json) : Prop where
  /-- All issues are of unknown keys of the root or of one of its fields. -/
  union : (issues a).Perm ((v.unknown a ++ v.parts.flatMap fun part =>
    part.found (writtenIds? a) (a.get? part.key)).map Finding.issue)
  /-- Those of a field are the ones that lie in it. -/
  located : ∀ part ∈ v.parts,
    foundIn (.key .root part.key) a = part.found (writtenIds? a) (a.get? part.key)
  /-- The ids of the intervals make a difference to the relations only. -/
  referring : ∀ part ∈ v.parts, ∀ ids others value?,
    (part.key = v.relationsKey → Option.Rel SameIds ids others) →
      part.found ids value? = part.found others value?
  /-- Where there is no list of intervals, any id may be the end of a relation. -/
  unlisted : endpoint none = identifier
  field : ∀ part ∈ v.parts, a.get? part.key = b.get? part.key →
    (part.key = v.relationsKey → Option.Rel SameIds (writtenIds? a) (writtenIds? b)) →
      foundIn (.key .root part.key) a = foundIn (.key .root part.key) b
  interval : ∀ i item, a.at? (.index (.key .root "intervals") i) = some item →
    b.at? (.index (.key .root "intervals") i) = some item →
      SameIds (earlierIds a i) (earlierIds b i) →
        foundIn (.index (.key .root "intervals") i) a =
          foundIn (.index (.key .root "intervals") i) b
  relation : ∀ i item, a.at? (.index v.relations i) = some item →
    b.at? (.index v.relations i) = some item →
      Option.Rel SameIds (writtenIds? a) (writtenIds? b) →
        foundIn (.index v.relations i) a = foundIn (.index v.relations i) b
  constraint : ∀ i item, a.at? (.index v.constraints i) = some item →
    b.at? (.index v.constraints i) = some item →
      foundIn (.index v.constraints i) a = foundIn (.index v.constraints i) b

section Unmasked
variable {v : Version} {a b : Json}

theorem foundIn_key_eq (ha : HasVersion v a) (hb : HasVersion v b) {part : Part}
    (hpart : part ∈ v.parts) (hvalue : a.get? part.key = b.get? part.key)
    (hids : part.key = v.relationsKey → Option.Rel SameIds (writtenIds? a) (writtenIds? b)) :
    foundIn (.key .root part.key) a = foundIn (.key .root part.key) b := by
  rw [foundIn_key ha hpart, foundIn_key hb hpart, hvalue]
  exact v.parts_congr part hpart _ _ _ hids

theorem foundIn_interval_eq (ha : HasVersion v a) (hb : HasVersion v b) {i : Nat} {item : Json}
    (hitem : a.at? (.index (.key .root "intervals") i) = some item)
    (hother : b.at? (.index (.key .root "intervals") i) = some item)
    (hids : SameIds (earlierIds a i) (earlierIds b i)) :
    foundIn (.index (.key .root "intervals") i) a =
      foundIn (.index (.key .root "intervals") i) b := by
  rw [foundIn_interval ha hitem, foundIn_interval hb hother, foundInterval, hids.repeatedAt_eq]
  rfl

theorem foundIn_relation_eq (ha : HasVersion v a) (hb : HasVersion v b) {i : Nat} {item : Json}
    (hitem : a.at? (.index v.relations i) = some item)
    (hother : b.at? (.index v.relations i) = some item)
    (hids : Option.Rel SameIds (writtenIds? a) (writtenIds? b)) :
    foundIn (.index v.relations i) a = foundIn (.index v.relations i) b := by
  rw [foundIn_relation ha hitem, foundIn_relation hb hother]
  cases v with
  | legacy => simp only [Version.foundRelation, legacyRelation_eq hids]
  | canonical => simp only [Version.foundRelation, canonicalRelation_eq hids]

/-- **No violation masks another**: what is wrong in one part of a document is reported whatever
the other parts are. -/
theorem unmasked (ha : HasVersion v a) (hb : HasVersion v b) : Unmasked v a b where
  union := checked_findings ha ▸ issues_perm a
  located _ hpart := foundIn_key ha hpart
  referring := v.parts_congr
  unlisted := endpoint_none
  field _ hpart hvalue hids := foundIn_key_eq ha hb hpart hvalue hids
  interval _ _ hitem hother hids := foundIn_interval_eq ha hb hitem hother hids
  relation _ _ hitem hother hids := foundIn_relation_eq ha hb hitem hother hids
  constraint _ _ hitem hother :=
    (foundIn_constraint ha hitem).trans (foundIn_constraint hb hother).symm

/-- An interval that starts too early and never ends. -/
def unfinishedInterval : Json :=
  .object [("id", .string "a"), ("start", .number (.int (-1) (by decide)))]

/-- A relation without a name, to an interval that there is not. -/
def unfinishedRelation : Json :=
  .object [("id", .string ""), ("left", .string "a"), ("operatorId", .string "Bef"),
    ("right", .string "b")]

def unfinishedConstraint : Json := .object [("id", .string "c"), ("kind", .string "budget")]

/-- A pattern with these parts, followed by others, and with other fields. -/
def unfinishedPattern (intervals relations constraints : List Json) (rest : List (String × Json)) :
    Json :=
  .object ([
    ("constraints", .object [("constraints", .array (unfinishedConstraint :: constraints))]),
    ("intervals", .array (unfinishedInterval :: intervals)),
    ("relations", .array (unfinishedRelation :: relations)),
    ("schemaVersion", .string canonicalVersion)] ++ rest)

/-- One that is well otherwise, and one that has everything wrong. -/
def barePattern : Json :=
  unfinishedPattern [] [] [] [("id", .string "m"), ("meta", .object [("name", .string "M")])]

def hopelessPattern : Json :=
  unfinishedPattern [unfinishedInterval, .null] [.string "r", unfinishedRelation] [.array []]
    [("id", .object []), ("meta", .null), ("notes", .null), ("relations[0]", .null)]

theorem barePattern_unmasked :
    HasVersion .canonical barePattern ∧ HasVersion .canonical hopelessPattern ∧
      Unmasked .canonical barePattern hopelessPattern ∧
      (foundIn (.index (.key .root "relations") 0) barePattern).length = 2 ∧
      foundIn (.index (.key .root "relations") 0) barePattern =
        foundIn (.index (.key .root "relations") 0) hopelessPattern := by
  have h : Unmasked .canonical barePattern hopelessPattern := unmasked rfl rfl
  have hbare : writtenIds? barePattern = some ["a"] := rfl
  have hhopeless : writtenIds? hopelessPattern = some ["a", "a"] := rfl
  have hids : Option.Rel SameIds (writtenIds? barePattern) (writtenIds? hopelessPattern) := by
    rw [hbare, hhopeless]
    exact .some fun id => by simp
  exact ⟨rfl, rfl, h, by decide +kernel, h.relation 0 unfinishedRelation rfl rfl hids⟩

end Unmasked

end EventPattern.Document
