import EventPattern.Proofs.Document.Acceptance
import EventPattern.Proofs.Document.Places
import EventPattern.Proofs.Document.RepeatedIds
import EventPattern.Proofs.Json.Records
import EventPattern.Proofs.Sorting

/-! Where the findings on a document lie.

A check is told where it looks, and what it finds it locates from there on. If it was told
right, then so is what it finds (`Points`): at something that stands in the document or, where
a field is missing, in the object that should have it. From the checks of single values up,
one fact for each check, this leads to `checked_points`. -/
namespace EventPattern

/-! ### Places of findings -/

/-- The kind of value that was asked for and could not be read. -/
def Problem.refused? : Problem → Option ParamKind
  | notAComparator => some .comparator
  | negativeThreshold | notAThreshold => some .threshold
  | negativeAmount | notAnAmount => some .amount
  | _ => none

/-- The problem is with something that is there, and not with how it reads. -/
def Problem.isPlain : Problem → Bool
  | missingField _ => false
  | problem => problem.refused?.isNone

/-- The finding lies in the document: in an object that lacks the field, at a value that cannot
be read, or at whatever else is there. -/
inductive Finding.IsPlaced (input : Json) : Finding → Prop where
  | missing {parent : Location} {fields : Json.Fields} {name : String}
      (object : input.at? parent = some (.object fields)) (absent : fields.get? name = none) :
      IsPlaced input ⟨.key parent name, .missingField name⟩
  | refused {parent : Location} {fields : Json.Fields} {name : String} {raw : Json}
      {kind : ParamKind} {problem : Problem} (asked : problem.refused? = some kind)
      (object : input.at? parent = some (.object fields)) (carries : (name, raw) ∈ fields)
      (unreadable : kind.read? raw = none) :
      IsPlaced input ⟨.key parent name, problem⟩
  | found {place : Location} {problem : Problem} (plain : problem.isPlain = true)
      (stands : (input.at? place).isSome) :
      IsPlaced input ⟨place, problem⟩

namespace Document

open Json (Fields)

variable {α β : Type}

/-- Everything that was found lies in the document. -/
def AllPlaced (input : Json) (outcome : Checked α) : Prop :=
  ∀ f ∈ outcome.findings, f.IsPlaced input

/-- Told where a value stands, the check locates what it finds. -/
def Points (input : Json) (check : Check α) : Prop :=
  ∀ place json, input.at? place = some json → AllPlaced input (check place json)

/-! ### Gathering -/

section Gathering
variable {input : Json}

theorem allPlaced_ok (value : α) : AllPlaced input (.ok value) := nofun

theorem allPlaced_fail {place : Location} {problem : Problem}
    (h : Finding.IsPlaced input ⟨place, problem⟩) :
    AllPlaced input (Checked.fail place problem : Checked α) := by
  intro f hf
  rw [List.mem_singleton.mp hf]
  exact h

theorem allPlaced_report {findings : List Finding} (h : ∀ f ∈ findings, f.IsPlaced input) :
    AllPlaced input (.report findings) := by
  cases findings with
  | nil => exact allPlaced_ok ()
  | cons first more => exact h

theorem AllPlaced.map {outcome : Checked α} (h : AllPlaced input outcome) (f : α → β) :
    AllPlaced input (outcome.map f) := by
  rw [AllPlaced, Checked.findings_map]
  exact h

theorem AllPlaced.fmap {outcome : Checked α} (h : AllPlaced input outcome) (f : α → β) :
    AllPlaced input (f <$> outcome) := h.map f

theorem AllPlaced.both {first : Checked α} {second : Checked β} (hfirst : AllPlaced input first)
    (hsecond : AllPlaced input second) : AllPlaced input (first.both second) := by
  rw [AllPlaced, Checked.findings_both]
  exact List.forall_mem_append.mpr ⟨hfirst, hsecond⟩

theorem AllPlaced.seq {first : Checked (α → β)} {second : Checked α}
    (hfirst : AllPlaced input first) (hsecond : AllPlaced input second) :
    AllPlaced input (first <*> second) :=
  (hfirst.both hsecond).map _

theorem AllPlaced.also {first : Checked Unit} {second : Checked α}
    (hfirst : AllPlaced input first) (hsecond : AllPlaced input second) :
    AllPlaced input (first.also second) :=
  (hfirst.both hsecond).map _

theorem AllPlaced.andThen {outcome : Checked α} {next : α → Checked β}
    (h : AllPlaced input outcome) (hnext : ∀ a, outcome = .ok a → AllPlaced input (next a)) :
    AllPlaced input (outcome.andThen next) := by
  cases outcome with
  | ok a => exact hnext a rfl
  | failed first more => exact h

theorem allPlaced_all {checks : List (Checked α)} (h : ∀ check ∈ checks, AllPlaced input check) :
    AllPlaced input (.all checks) := by
  rw [AllPlaced, Checked.findings_all]
  intro f hf
  obtain ⟨check, hcheck, hf⟩ := List.mem_flatMap.mp hf
  exact h check hcheck f hf

end Gathering

/-! ### Values of any shape -/

section Values
variable {input : Json} {place : Location} {fields : Fields}

theorem get?_isSome_of_mem {name : String} {json : Json} (h : (name, json) ∈ fields) :
    (fields.get? name).isSome := by
  rw [Fields.get?, Option.isSome_map, List.find?_isSome]
  exact ⟨_, h, beq_self_eq_true name⟩

theorem at?_key_of_object (hplace : input.at? place = some (.object fields)) (name : String) :
    input.at? (.key place name) = fields.get? name := Json.at?_key hplace name

/-- Where something stands, whatever is found there lies in the document. -/
theorem allPlaced_found {problem : Problem} (plain : problem.isPlain = true)
    (hplace : (input.at? place).isSome) :
    AllPlaced input (Checked.fail place problem : Checked α) :=
  allPlaced_fail (.found plain hplace)

theorem unknownFields_placed (hplace : input.at? place = some (.object fields))
    (allowed : List String) : AllPlaced input (unknownFields place allowed fields) := by
  refine allPlaced_report fun f hf => ?_
  obtain ⟨name, hname, rfl⟩ := List.mem_map.mp hf
  obtain ⟨field, hfield, rfl⟩ := List.mem_map.mp (List.mem_filter.mp hname).1
  refine .found rfl ?_
  rw [at?_key_of_object hplace]
  exact get?_isSome_of_mem hfield

theorem anyObject_points : Points input anyObject := by
  intro place json hplace
  cases json <;> first
    | exact allPlaced_ok _
    | exact allPlaced_found rfl (Option.isSome_of_eq_some hplace)

theorem object_points {allowed : List String} {read : Location → Fields → Checked α}
    (h : ∀ place fields, input.at? place = some (.object fields) →
      AllPlaced input (read place fields)) : Points input (object allowed read) := by
  intro place json hplace
  cases json <;> first
    | exact (unknownFields_placed hplace allowed).also (h _ _ hplace)
    | exact allPlaced_found rfl (Option.isSome_of_eq_some hplace)

theorem required_placed (hplace : input.at? place = some (.object fields)) (key : String)
    {check : Check α} (h : Points input check) :
    AllPlaced input (required place fields key check) := by
  unfold required
  split
  · next hget =>
    refine h _ _ ?_
    rw [at?_key_of_object hplace, hget]
  · next hget => exact allPlaced_fail (.missing hplace hget)

theorem defaulting_placed (hplace : input.at? place = some (.object fields)) (key : String)
    (default : α) {check : Check α} (h : Points input check) :
    AllPlaced input (defaulting place fields key default check) := by
  unfold defaulting
  split
  · next hget =>
    refine h _ _ ?_
    rw [at?_key_of_object hplace, hget]
  · exact allPlaced_ok _

theorem optional_placed (hplace : input.at? place = some (.object fields)) (key : String)
    {check : Check α} (h : Points input check) :
    AllPlaced input (optional place fields key check) :=
  defaulting_placed hplace key none fun place json hjson => (h place json hjson).map _

theorem list_points {check : Check α} (h : Points input check) : Points input (list check) := by
  intro place json hplace
  cases json with
  | array items =>
    refine allPlaced_all fun outcome houtcome => ?_
    obtain ⟨⟨item, i⟩, hitem, rfl⟩ := List.mem_map.mp houtcome
    refine h _ _ ?_
    rw [Json.at?, hplace]
    exact List.mem_zipIdx_iff_getElem?.mp hitem
  | _ => exact allPlaced_found rfl (Option.isSome_of_eq_some hplace)

theorem string_points : Points input string := by
  intro place json hplace
  cases json <;> first
    | exact allPlaced_ok _
    | exact allPlaced_found rfl (Option.isSome_of_eq_some hplace)

theorem nonEmpty_points (what : String) : Points input (nonEmpty what) := by
  intro place json hplace
  refine (string_points place json hplace).andThen fun text _ => ?_
  split
  · exact allPlaced_found rfl (Option.isSome_of_eq_some hplace)
  · exact allPlaced_ok _

theorem identifier_points : Points input identifier := nonEmpty_points "id"

end Values

/-! ### Intervals -/

section Parts
variable {input : Json} {place : Location} {fields : Fields}

theorem tick_points : Points input tick := by
  intro place json hplace
  have hstands := Option.isSome_of_eq_some hplace
  unfold tick
  split
  · split
    · exact allPlaced_ok _
    · split
      · exact allPlaced_found rfl hstands
      · split
        · exact allPlaced_found rfl hstands
        · exact allPlaced_ok _
  · exact allPlaced_found rfl hstands

theorem get?_of_required {check : Check α} {key : String} {a : α}
    (h : required place fields key check = .ok a) :
    ∃ json, fields.get? key = some json ∧ check (.key place key) json = .ok a := by
  unfold required at h
  split at h
  · next json hget => exact ⟨json, hget, h⟩
  · cases h

theorem span_placed (hplace : input.at? place = some (.object fields)) :
    AllPlaced input (span place fields) := by
  refine ((required_placed hplace "start" tick_points).both
    (required_placed hplace "end" tick_points)).andThen fun ticks hticks => ?_
  obtain ⟨-, hstop⟩ := (Checked.both_eq_ok _ _ _).mp hticks
  obtain ⟨json, hget, -⟩ := get?_of_required hstop
  split
  · refine allPlaced_found rfl ?_
    rw [at?_key_of_object hplace, hget]
    rfl
  · exact allPlaced_ok _

theorem predicate_points : Points input predicate :=
  object_points fun _ _ hplace =>
    ((required_placed hplace "name" (nonEmpty_points _)).fmap _).seq
      (defaulting_placed hplace "args" [] (list_points (nonEmpty_points _)))

theorem interval_points : Points input interval :=
  object_points fun _ _ hplace =>
    ((((required_placed hplace "id" identifier_points).fmap _).seq
      (span_placed hplace)).seq
      (required_placed hplace "predicate" predicate_points)).seq
      (optional_placed hplace "label" (nonEmpty_points _))

theorem repeatedIds_placed (seen : List String) (entries : List (Json × Nat))
    (h : ∀ entry ∈ entries, input.at? (.index place entry.2) = some entry.1) :
    ∀ f ∈ repeatedIds place seen entries, f.IsPlaced input := by
  intro f hf
  obtain ⟨entry, hentry, id, hid, rfl⟩ := mem_repeatedIds hf
  obtain ⟨value, hvalue, -⟩ := Option.bind_eq_some_iff.mp hid
  refine .found rfl ?_
  rw [Json.at?, h entry hentry, Option.bind_some, hvalue]
  rfl

theorem intervals_placed (hinput : input = .object fields) :
    AllPlaced input (intervals fields) := by
  have hroot : input.at? .root = some (.object fields) := congrArg some hinput
  refine AllPlaced.also (allPlaced_report (repeatedIds_placed _ _ ?_))
    (required_placed hroot "intervals" (list_points interval_points))
  intro entry hentry
  obtain ⟨item, i⟩ := entry
  have hitem := List.mem_zipIdx_iff_getElem?.mp hentry
  rw [Json.at?_index, Json.itemsAt, at?_key_of_object hroot]
  exact hitem

/-! ### Parameters -/

theorem paramValue_placed {name : String} {raw : Json} (kind : ParamKind)
    (hplace : input.at? place = some (.object fields)) (hfield : (name, raw) ∈ fields) :
    AllPlaced input (paramValue kind (.key place name) raw) := by
  have hrefused {problem : Problem} (hasked : problem.refused? = some kind)
      (hread : ¬ (kind.read? raw).isSome) :
      AllPlaced input (Checked.fail (.key place name) problem : Checked Unit) :=
    allPlaced_fail (.refused hasked hplace hfield (Option.not_isSome_iff_eq_none.mp hread))
  cases kind with
  | comparator =>
    simp only [paramValue]
    split
    · exact allPlaced_ok _
    · next hread => exact hrefused rfl hread
  | threshold =>
    simp only [paramValue]
    split
    · exact allPlaced_ok _
    · next hread =>
      split
      · exact hrefused rfl hread
      · exact hrefused rfl hread
  | amount =>
    simp only [paramValue]
    split
    · exact allPlaced_ok _
    · next hread =>
      split
      · exact hrefused rfl hread
      · exact hrefused rfl hread

theorem paramField_placed {field : String × Json}
    (hplace : input.at? place = some (.object fields)) (hfield : field ∈ fields) :
    AllPlaced input (paramField place field) := by
  unfold paramField
  split
  · refine allPlaced_found rfl ?_
    rw [at?_key_of_object hplace]
    exact get?_isSome_of_mem hfield
  · exact paramValue_placed _ hplace hfield

theorem params_points : Points input params := by
  intro place json hplace
  unfold params
  split
  · exact allPlaced_ok _
  · refine (anyObject_points place json hplace).andThen fun fields hfields => ?_
    obtain rfl := (anyObject_reads place json fields).mp hfields
    refine (allPlaced_all fun outcome houtcome => ?_).map _
    obtain ⟨field, hfield, rfl⟩ := List.mem_map.mp houtcome
    exact paramField_placed hplace hfield

theorem paramKey_points : Points input paramKey := by
  intro place json hplace
  refine (string_points place json hplace).andThen fun name _ => ?_
  split
  · exact allPlaced_ok _
  · exact allPlaced_found rfl (Option.isSome_of_eq_some hplace)

/-! ### Relations -/

variable (known : Option (List String))

theorem endpoint_points : Points input (endpoint known) := by
  intro place json hplace
  refine (identifier_points place json hplace).andThen fun id _ => ?_
  split
  · exact allPlaced_ok _
  · split
    · exact allPlaced_ok _
    · exact allPlaced_found rfl (Option.isSome_of_eq_some hplace)

theorem legacyRelation_points : Points input (legacyRelation known) :=
  object_points fun _ _ hplace =>
    (((((((required_placed hplace "id" identifier_points).fmap _).seq
      (required_placed hplace "leftIntervalId" (endpoint_points known))).seq
      (required_placed hplace "rightIntervalId" (endpoint_points known))).seq
      (required_placed hplace "operatorKey" (nonEmpty_points _))).seq
      (defaulting_placed hplace "params" none params_points)).seq
      (optional_placed hplace "allenAlias" (nonEmpty_points _))).seq
      (defaulting_placed hplace "constraintIds" [] (list_points identifier_points))

theorem canonicalRelation_points : Points input (canonicalRelation known) :=
  object_points fun _ _ hplace =>
    (((((((required_placed hplace "id" identifier_points).fmap _).seq
      (required_placed hplace "left" (endpoint_points known))).seq
      (required_placed hplace "right" (endpoint_points known))).seq
      (required_placed hplace "operatorId" (nonEmpty_points _))).seq
      (defaulting_placed hplace "params" none params_points)).seq
      (defaulting_placed hplace "constraintIds" [] (list_points identifier_points))).seq
      (optional_placed hplace "label" (nonEmpty_points _))

/-! ### Constraints -/

theorem legacyConstraint_points : Points input legacyConstraint :=
  object_points fun _ _ hplace =>
    (((required_placed hplace "id" identifier_points).fmap _).seq
      (required_placed hplace "kind" (nonEmpty_points _))).seq
      (defaulting_placed hplace "payload" [] anyObject_points)

theorem paramAssignment_placed (hplace : input.at? place = some (.object fields)) :
    AllPlaced input (paramAssignment place fields) := by
  have hvalue : AllPlaced input (required place fields "value" fun _ value => .ok value) :=
    required_placed hplace "value" fun _ _ _ => allPlaced_ok _
  refine ((required_placed hplace "param" paramKey_points).both hvalue).andThen
    fun pair hpair => ?_
  obtain ⟨-, hgiven⟩ := (Checked.both_eq_ok _ _ _).mp hpair
  obtain ⟨raw, hget, hok⟩ := get?_of_required hgiven
  cases hok
  exact (paramValue_placed pair.1.kind hplace (Json.Fields.mem_of_get? hget)).map _

theorem relationParam_points : Points input relationParam :=
  object_points fun _ _ hplace =>
    (((required_placed hplace "id" identifier_points).fmap _).seq
      (required_placed hplace "relationId" identifier_points)).seq
      (paramAssignment_placed hplace)

theorem note_points : Points input note :=
  object_points fun _ _ hplace =>
    ((required_placed hplace "id" identifier_points).fmap _).seq
      (required_placed hplace "text" string_points)

theorem canonicalConstraint_points : Points input canonicalConstraint := by
  intro place json hplace
  refine (anyObject_points place json hplace).andThen fun fields hfields => ?_
  obtain rfl := (anyObject_reads place json fields).mp hfields
  refine (required_placed hplace "kind" string_points).andThen fun kind hkind => ?_
  obtain ⟨json, hget, -⟩ := get?_of_required hkind
  split
  · exact relationParam_points place _ hplace
  · split
    · exact note_points place _ hplace
    · refine allPlaced_found rfl ?_
      rw [at?_key_of_object hplace, hget]
      rfl

/-! ### Documents -/

theorem selection_points : Points input selection :=
  object_points fun _ _ hplace =>
    (required_placed hplace "constraintIds" (list_points identifier_points)).fmap _

theorem legacyConstraints_points : Points input (legacyConstraints known) :=
  object_points fun _ _ hplace =>
    (defaulting_placed hplace "temporal" [] (list_points (legacyRelation_points known))).both
      (defaulting_placed hplace "extra" [] (list_points legacyConstraint_points))

theorem legacyDocument_placed (hinput : input = .object fields) :
    AllPlaced input (legacyDocument fields) := by
  have hroot : input.at? .root = some (.object fields) := congrArg some hinput
  exact (unknownFields_placed hroot _).also
    (((((((((required_placed hroot "id" identifier_points).fmap _).seq
      (required_placed hroot "name" (nonEmpty_points _))).seq
      (optional_placed hroot "description" string_points)).seq
      (optional_placed hroot "createdAt" string_points)).seq
      (optional_placed hroot "updatedAt" string_points)).seq
      (intervals_placed hinput)).seq
      (defaulting_placed hroot "constraints" ([], []) (legacyConstraints_points _))).seq
      (optional_placed hroot "temporalExpression" selection_points))

theorem metadata_points : Points input metadata :=
  object_points fun _ _ hplace =>
    (((required_placed hplace "name" (nonEmpty_points _)).fmap _).seq
      (optional_placed hplace "description" string_points)).seq
      (optional_placed hplace "createdAtISO" string_points)

theorem canonicalConstraints_points : Points input canonicalConstraints :=
  object_points fun _ _ hplace =>
    defaulting_placed hplace "constraints" [] (list_points canonicalConstraint_points)

theorem canonicalDocument_placed (hinput : input = .object fields) :
    AllPlaced input (canonicalDocument fields) := by
  have hroot : input.at? .root = some (.object fields) := congrArg some hinput
  exact (unknownFields_placed hroot _).also
    (((((((required_placed hroot "id" identifier_points).fmap _).seq
      (required_placed hroot "meta" metadata_points)).seq
      (intervals_placed hinput)).seq
      (defaulting_placed hroot "relations" [] (list_points (canonicalRelation_points _)))).seq
      (defaulting_placed hroot "constraints" [] canonicalConstraints_points)).seq
      (optional_placed hroot "temporalExpression" selection_points))

end Parts

/-- **Everything that is found on a document lies in it.** -/
theorem checked_placed (input : Json) : AllPlaced input (checked input) := by
  unfold checked
  split
  · next fields =>
    have hroot : (Json.object fields).at? .root = some (.object fields) := rfl
    split
    · next hget => exact allPlaced_fail (.missing hroot hget)
    · next version hget =>
      split
      · exact (legacyDocument_placed rfl).map _
      · split
        · exact (canonicalDocument_placed rfl).map _
        · refine allPlaced_found rfl ?_
          rw [at?_key_of_object hroot, hget]
          rfl
  · exact allPlaced_found rfl rfl

/-- The issues of a document are findings that lie in it. -/
theorem placed_of_check {input : Json} {issues : List Issue}
    (h : check input = .error issues) {issue : Issue} (hmem : issue ∈ issues) :
    ∃ f : Finding, f.IsPlaced input ∧ issue = f.issue := by
  have hplaced := checked_placed input
  unfold check at h
  split at h
  · cases h
  · next first more hchecked =>
    cases h
    obtain ⟨f, hf, rfl⟩ := List.mem_map.mp ((mem_sortOn Issue.sortKey).mp hmem)
    rw [hchecked] at hplaced
    exact ⟨f, hplaced f hf, rfl⟩

end Document
end EventPattern
