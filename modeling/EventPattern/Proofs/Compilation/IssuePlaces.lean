import EventPattern.Proofs.Compilation.Admission
import EventPattern.Proofs.Compilation.Layering
import EventPattern.Proofs.Document.Findings

/-! Where the issues of a compilation lie.

The paths of the review come of the model and its origin, those of the check of the document
itself. Both lead into the document (`issues_located`): what an issue is about stands at its
path or, where something is missing, in the object around it. For this the relations of the
model have to be where the origin says (`IsDocument.written_at`), and its parameters under the
names that their author wrote (`IsRelation.at?_effectiveName`). -/
namespace EventPattern

/-! ### What is written -/

/-- Where each key is there once, the field of a key is the one that is found by it. -/
theorem Json.Fields.get?_of_mem {fields : Json.Fields} {field : String × Json}
    (hdistinct : (fields.map (·.1)).Nodup) (h : field ∈ fields) :
    fields.get? field.1 = some field.2 := by
  rw [get?, (find?_key_eq_some hdistinct field.1 field).mpr ⟨h, rfl⟩, Option.map_some]

/-- The spelling that counts where a relation gives a parameter. -/
def Json.givenName (relation : Json) (key : ParamKey) : String :=
  if (relation.param? key.latin).isSome then key.latin else key.greek

theorem Json.param?_givenName (relation : Json) (key : ParamKey) :
    relation.param? (relation.givenName key) = relation.givenParam? key := by
  unfold givenName givenParam?
  cases hlatin : relation.param? key.latin with
  | none => rfl
  | some raw => exact hlatin

/-- The relation gives no parameters. -/
def Json.LacksParams (relation : Json) : Prop :=
  relation.get? "params" = none ∨ relation.get? "params" = some .null ∨
    relation.get? "params" = some (.object [])

/-- The relation gives a value that the operator it names does not admit. -/
structure Json.GivesRefused (catalog : Catalog) (origin : Origin) (relation : Json)
    (key : ParamKey) (value : key.Value) (reference : String) : Prop where
  names : relation.get? origin.operatorKey = some (.string reference)
  given : ∃ raw, relation.givenParam? key = some raw ∧ key.kind.read? raw = some value
  refused : ∃ op, catalog.lookup? reference = some op ∧ op.domains.admits key.kind value = false

/-- What is said of a value that cannot be read, by the kind that was asked for. -/
def ParamKind.unreadableCode : ParamKind → String
  | .comparator => "SCHEMA_INVALID_COMPARATOR"
  | .threshold => "SCHEMA_INVALID_THRESHOLD"
  | .amount => "SCHEMA_INVALID_RHO"

/-! ### Remarks -/

/-- The remark is about what stands at the place, or about parameters that are missing there. -/
def Remark.IsPlaced (catalog : Catalog) (input : Json) (doc : Document) (place : Location) :
    Remark → Prop
  | .unknownOperator reference => input.at? place = some (.string reference)
  | .unknownConstraint id => input.at? place = some (.string id)
  | .valueNotAllowed key value reference =>
    ∃ i relation, input.at? (doc.model.relationAt i) = some relation ∧
      relation.GivesRefused catalog doc.model.origin key value reference ∧
      place = .key (.key (doc.model.relationAt i) "params") (relation.givenName key)
  | .missingParams _ =>
    ∃ i fields, input.at? (doc.model.relationAt i) = some (.object fields) ∧
      (Json.object fields).LacksParams ∧ place = .key (doc.model.relationAt i) "params"
  | .unknownInterval _ _ | .unreadableValue _ _ => False
  | .unsupportedConstraint _ _ | .greekKeys _ | .permissiveThresholds _ | .redundantOverlap
  | .redundantRobustness | .redundantCardinality => (input.at? place).isSome

/-- The issue is a remark that lies in the document. -/
def Document.Remarks (doc : Document) (catalog : Catalog) (input : Json) (issue : Issue) : Prop :=
  ∃ (remark : Remark) (place : Location), issue = remark.issue place ∧
    remark.IsPlaced catalog input doc place

namespace Document

open Json (Fields)

section Relations
variable {origin : Origin} {ids : List String} {json : Json}
  {r : Relation (Option AuthoredParams)}

theorem IsRelation.reference (h : IsRelation origin ids json r) {input : Json} {place : Location}
    (hplace : input.at? place = some json) {k : Nat} {id : String}
    (hid : r.constraintIds[k]? = some id) :
    input.at? (.index (.key place "constraintIds") k) = some (.string id) := by
  obtain ⟨fields, rfl, hfields⟩ := h
  rw [Json.at?_index, Json.itemsAt, Json.at?_key hplace, Json.get?_object]
  obtain ⟨item, hitem, rfl, -⟩ := forall₂_getElem? hfields.constraintIds.items.flip hid
  exact hitem

theorem IsRelation.givenName_eq (h : IsRelation origin ids json r) {params : AuthoredParams}
    (hparams : r.params = some params) (key : ParamKey) :
    json.givenName key = params.effectiveName key := by
  obtain ⟨fields, rfl, hfields⟩ := h
  rw [Json.givenName, ← (hfields.params.param? key).1, hparams]
  rfl

theorem IsRelation.params_isSome (h : IsRelation origin ids json r) {params : AuthoredParams}
    (hparams : r.params = some params) : (json.get? "params").isSome := by
  obtain ⟨fields, rfl, hfields⟩ := h
  rcases hfields.params with ⟨-, hnone⟩ | ⟨_, hget, -⟩
  · rw [hparams] at hnone
    cases hnone
  · exact Option.isSome_of_eq_some hget

/-- An object of parameters that holds none is empty, since it has no other fields. -/
theorem eq_nil_of_isEmpty {fields : Fields} (hknown : ∀ field ∈ fields, IsParam field)
    (hempty : (AuthoredParams.ofFields fields).isEmpty = true) : fields = [] := by
  refine List.eq_nil_iff_forall_not_mem.mpr fun field hfield => ?_
  obtain ⟨key, spelling, hname, -⟩ := hknown field hfield
  obtain ⟨hlatin, hgreek⟩ := Bool.and_eq_true_iff.mp hempty
  have hlatin := (ParamRecord.isEmpty_iff _).mp hlatin key
  have hgreek := (ParamRecord.isEmpty_iff _).mp hgreek key
  have hsome : (fields.get? field.1).isSome := get?_isSome_of_mem hfield
  rw [ParamKey.eq_spelled_of_ofName? hname] at hsome
  rw [AuthoredParams.get_latin_ofFields] at hlatin
  rw [AuthoredParams.get_greek_ofFields] at hgreek
  cases spelling with
  | latin =>
    rw [ParamKey.spelled, hlatin] at hsome
    cases hsome
  | greek =>
    rw [ParamKey.spelled, hgreek] at hsome
    cases hsome

theorem IsRelation.lacksParams (h : IsRelation origin ids json r) (hnone : r.givenParams = none) :
    json.LacksParams := by
  obtain ⟨fields, rfl, hfields⟩ := h
  unfold Json.LacksParams
  rw [Json.get?_object]
  rcases hfields.params with ⟨hget, -⟩ | ⟨_, hget, ⟨rfl, -⟩ | ⟨inner, rfl, hknown, hparams⟩⟩
  · exact .inl hget
  · exact .inr (.inl hget)
  · rw [Relation.givenParams, hparams, Option.filter_eq_none_iff] at hnone
    have hempty := hnone _ rfl
    rw [eq_nil_of_isEmpty hknown (by simpa using hempty)] at hget
    exact .inr (.inr hget)

end Relations

/-! ### The review -/

section Review
variable {input : Json} {doc : Document} {catalog : Catalog} {i : Nat}
  {r : Relation (Option AuthoredParams)} {json : Json} {issue : Issue}

theorem remarks_of_operator (hjson : input.at? (doc.model.relationAt i) = some json)
    (hwritten : IsRelation doc.model.origin (doc.model.intervals.map (·.id)) json r)
    (h : issue ∈ Review.operatorIssues doc.model catalog (doc.model.relationAt i) r) :
    doc.Remarks catalog input issue := by
  unfold Review.operatorIssues at h
  split at h
  · cases h
  · rw [List.mem_singleton.mp h]
    refine ⟨_, _, rfl, ?_⟩
    show input.at? _ = _
    rw [Json.at?_key hjson, hwritten.operator]

theorem remarks_of_reference (hjson : input.at? (doc.model.relationAt i) = some json)
    (hwritten : IsRelation doc.model.origin (doc.model.intervals.map (·.id)) json r)
    (h : issue ∈ Review.referenceIssues doc.model catalog (doc.model.relationAt i) r) :
    doc.Remarks catalog input issue := by
  obtain ⟨⟨id, k⟩, hid, hissue⟩ := List.mem_filterMap.mp h
  obtain ⟨remark, hremark, rfl⟩ := Option.map_eq_some_iff.mp hissue
  have hplace := hwritten.reference hjson (List.mem_zipIdx_iff_getElem?.mp hid)
  refine ⟨remark, _, rfl, ?_⟩
  unfold Review.referenceRemark? at hremark
  split at hremark
  · cases hremark
    exact hplace
  · split at hremark
    · cases hremark
      exact Option.isSome_of_eq_some hplace
    · cases hremark

/-- A value that can be read is wrong for its operator only. -/
theorem remarks_of_value (hjson : input.at? (doc.model.relationAt i) = some json)
    (hwritten : IsRelation doc.model.origin (doc.model.intervals.map (·.id)) json r)
    (hproper : r.Proper (doc.model.intervals.map (·.id)))
    (h : issue ∈ Review.paramIssues catalog (doc.model.relationAt i) r) :
    doc.Remarks catalog input issue := by
  unfold Review.paramIssues at h
  split at h
  · cases h
  · next params hgiven =>
    obtain ⟨hparams, -⟩ := Option.filter_eq_some_iff.mp hgiven
    obtain ⟨key, -, hissue⟩ := List.mem_filterMap.mp h
    obtain ⟨raw, heffective, hvalue⟩ := Option.bind_eq_some_iff.mp hissue
    obtain ⟨remark, hremark, rfl⟩ := Option.map_eq_some_iff.mp hvalue
    have hauthored : r.authored key = some raw := by
      rw [Relation.authored, hparams]
      exact heffective
    refine ⟨remark, _, rfl, ?_⟩
    rw [← hwritten.givenName_eq hparams]
    obtain ⟨value, hread⟩ := Option.isSome_iff_exists.mp (hproper.authored_readable hauthored)
    unfold Review.valueRemark? at hremark
    rw [hread] at hremark
    dsimp only at hremark
    split at hremark
    · next hrefused =>
      cases hremark
      obtain ⟨op, hop, hadmits⟩ := (Option.any_eq_true _ _).mp hrefused
      refine ⟨i, json, hjson, ⟨hwritten.operator, ?_, op, hop, ?_⟩, rfl⟩
      · rw [← hwritten.authored]
        exact ⟨raw, hauthored, hread⟩
      · simpa using hadmits
    · cases hremark

/-- What is wrong with a relation lies in it. Its ends are intervals, as the check saw to. -/
theorem remarks_of_fault (h : IsDocument input doc) (hr : doc.model.relations[i]? = some r)
    (hfault : issue ∈ Review.faults doc.model catalog (r, i)) :
    doc.Remarks catalog input issue := by
  obtain ⟨json, hjson, hwritten⟩ := h.written_at hr
  have hproper := h.proper.relation r (List.mem_of_getElem? hr)
  have hends : Review.endIssues doc.model (doc.model.relationAt i) r = [] :=
    (Review.endIssues_eq_nil _ _ _).mpr ⟨hproper.left.2, hproper.right.2⟩
  simp only [Review.faults, hends, List.append_nil, List.mem_append] at hfault
  rcases hfault with (hoperator | hreference) | hvalue
  · exact remarks_of_operator hjson hwritten hoperator
  · exact remarks_of_reference hjson hwritten hreference
  · exact remarks_of_value hjson hwritten hproper hvalue

/-- A relation without parameters lacks them where they would be. -/
theorem remarks_of_missingParams (h : IsDocument input doc) (hr : doc.model.relations[i]? = some r)
    (hnone : r.givenParams = none) :
    doc.Remarks catalog input (missingParamsIssue (doc.model.relationAt i).text r.id) := by
  obtain ⟨json, hjson, hwritten⟩ := h.written_at hr
  have hlacks := hwritten.lacksParams hnone
  obtain ⟨fields, rfl, -⟩ := hwritten
  exact ⟨.missingParams r.id, .key (doc.model.relationAt i) "params", rfl, i, fields, hjson,
    hlacks, rfl⟩

/-- So does the advice on it. -/
theorem remarks_of_advice (h : IsDocument input doc) (hr : doc.model.relations[i]? = some r)
    (hadvice : issue ∈ Review.advice doc.model catalog (r, i)) :
    doc.Remarks catalog input issue := by
  obtain ⟨json, hjson, hwritten⟩ := h.written_at hr
  unfold Review.advice at hadvice
  rcases List.mem_append.mp hadvice with hadvice | hthreshold
  · unfold Review.adviceIssues at hadvice
    split at hadvice
    · next hnone =>
      rw [List.mem_singleton.mp hadvice]
      exact remarks_of_missingParams h hr hnone
    · next params hgiven =>
      split at hadvice
      · cases hadvice
      · rw [List.mem_singleton.mp hadvice]
        refine ⟨_, _, rfl, ?_⟩
        show (input.at? _).isSome
        rw [Json.at?_key hjson]
        exact hwritten.params_isSome (Option.filter_eq_some_iff.mp hgiven).1
  · unfold Review.thresholdIssues at hthreshold
    split at hthreshold
    · cases hthreshold
    · split at hthreshold
      · rw [List.mem_singleton.mp hthreshold]
        exact ⟨_, _, rfl, Option.isSome_of_eq_some hjson⟩
      · cases hthreshold

/-- Advice on a constraint lies at it. -/
theorem remarks_of_redundancy (h : IsDocument input doc)
    (hredundant : issue ∈ Review.redundancyIssues doc.model) :
    doc.Remarks catalog input issue := by
  obtain ⟨⟨c, i⟩, hc, hissue⟩ := List.mem_filterMap.mp hredundant
  obtain ⟨remark, hremark, rfl⟩ := Option.map_eq_some_iff.mp hissue
  have hplace : (input.at? (doc.model.constraintAt i)).isSome := by
    obtain ⟨hi, -⟩ := List.getElem?_eq_some_iff.mp (List.mem_zipIdx_iff_getElem?.mp hc)
    rw [Model.constraintAt, Json.at?_index,
      List.getElem?_eq_getElem (h.length_constraints ▸ hi)]
    rfl
  refine ⟨remark, _, rfl, ?_⟩
  simp only [Review.redundancy?] at hremark
  split at hremark
  · split at hremark <;> cases hremark
    exact hplace
  · split at hremark <;> cases hremark
    exact hplace
  · split at hremark <;> cases hremark
    exact hplace
  · cases hremark

/-- Everything that a review has to say lies in the document. -/
theorem remarks_of_review (h : IsDocument input doc)
    (hissue : issue ∈ (Review.ofModel doc.model catalog).errors ∨
      issue ∈ (Review.ofModel doc.model catalog).warnings) : doc.Remarks catalog input issue := by
  rcases hissue with hissue | hissue
  · obtain ⟨⟨r, i⟩, hentry, hfault⟩ := Review.mem_errors _ _ hissue
    exact remarks_of_fault h (List.mem_zipIdx_iff_getElem?.mp hentry) hfault
  · rcases Review.mem_warnings _ _ hissue with hredundant | ⟨⟨r, i⟩, hentry, hadvice⟩
    · exact remarks_of_redundancy h hredundant
    · exact remarks_of_advice h (List.mem_zipIdx_iff_getElem?.mp hentry) hadvice

theorem remarks_of_warnings (h : IsDocument input doc) (hissue : issue ∈ doc.warnings catalog) :
    doc.Remarks catalog input issue := by
  simp only [warnings, Issue.sort, mem_sortOn, Issue.distinct, List.mem_eraseDups,
    List.mem_append] at hissue
  rcases hissue with hmissing | hwarning
  · rw [missingParamsIssues_eq] at hmissing
    obtain ⟨⟨r, i⟩, hentry, hmissing⟩ := List.mem_filterMap.mp hmissing
    split at hmissing
    · next hnone =>
      cases hmissing
      exact remarks_of_missingParams h (List.mem_zipIdx_iff_getElem?.mp hentry)
        (Option.isNone_iff_eq_none.mp hnone)
    · cases hmissing
  · exact remarks_of_review h (.inr hwarning)

end Review
end Document

/-! ### The issues of a compilation -/

/-- An issue of a compilation is a finding on the document or a remark on its model. -/
theorem mem_issues {catalog : Catalog} {input : Json} {issue : Issue}
    (h : issue ∈ (compile catalog input).errors ++ (compile catalog input).warnings) :
    (∃ f : Finding, f.IsPlaced input ∧ issue = f.issue) ∨
      ∃ doc, Document.check input = .ok doc ∧ doc.Remarks catalog input issue := by
  cases hcheck : Document.check input with
  | error issues =>
    rw [compile_of_error catalog hcheck, List.append_nil] at h
    exact .inl (Document.placed_of_check hcheck h)
  | ok doc =>
    have hdoc := (Document.check_eq_ok_iff input doc).mp hcheck
    refine .inr ⟨doc, rfl, ?_⟩
    by_cases hsound : (Review.ofModel doc.model catalog).errors = []
    · rw [compile_of_sound catalog hcheck hsound, List.nil_append] at h
      exact Document.remarks_of_warnings hdoc h
    · rw [compile_of_faults catalog hcheck hsound] at h
      rcases List.mem_append.mp h with herror | hwarning
      · exact Document.remarks_of_review hdoc (.inl herror)
      · exact Document.remarks_of_warnings hdoc hwarning

namespace Issue

/-- The codes of the issues of which more is known than that something stands at their place. -/
def ownCodes : List String :=
  ["SCHEMA_MISSING_FIELD", "MISSING_PARAMS", "UNKNOWN_OPERATOR", "UNKNOWN_CONSTRAINT_REF",
    "INVALID_COMPARATOR", "PARAM_OUT_OF_RANGE", "SCHEMA_INVALID_COMPARATOR",
    "SCHEMA_INVALID_THRESHOLD", "SCHEMA_INVALID_RHO"]

/-- What the code of an issue says of its place in the document. -/
inductive LiesAt (catalog : Catalog) (input : Json) (issue : Issue) (place : Location) :
    Prop where
  | missingField (parent : Location) (fields : Json.Fields) (name : String)
      (hasCode : issue.code = "SCHEMA_MISSING_FIELD") (within : place = .key parent name)
      (object : input.at? parent = some (.object fields)) (absent : fields.get? name = none)
  | missingParams (doc : Document) (i : Nat) (fields : Json.Fields)
      (hasCode : issue.code = "MISSING_PARAMS") (checked : Document.check input = .ok doc)
      (within : place = .key (doc.model.relationAt i) "params")
      (object : input.at? (doc.model.relationAt i) = some (.object fields))
      (lacks : (Json.object fields).LacksParams)
  | operator (reference : String) (hasCode : issue.code = "UNKNOWN_OPERATOR")
      (stands : input.at? place = some (.string reference))
      (quoted : issue.message = "Unknown operatorId '" ++ reference ++ "'")
  | constraint (id : String) (hasCode : issue.code = "UNKNOWN_CONSTRAINT_REF")
      (stands : input.at? place = some (.string id))
      (quoted : issue.message = "constraintId '" ++ id ++ "' not found")
  | value (doc : Document) (i : Nat) (relation : Json) (key : ParamKey) (value : key.Value)
      (reference : String) (hasCode : issue.code = Remark.valueCode key)
      (checked : Document.check input = .ok doc)
      (written : input.at? (doc.model.relationAt i) = some relation)
      (refused : relation.GivesRefused catalog doc.model.origin key value reference)
      (within : place = .key (.key (doc.model.relationAt i) "params") (relation.givenName key))
      (stands : input.at? place = relation.givenParam? key)
      (quoted : issue.message = (Remark.valueNotAllowed key value reference).message)
  | unreadable (parent : Location) (fields : Json.Fields) (name : String) (raw : Json)
      (kind : ParamKind) (hasCode : issue.code = kind.unreadableCode)
      (within : place = .key parent name) (object : input.at? parent = some (.object fields))
      (carries : (name, raw) ∈ fields) (unread : kind.read? raw = none)
      (stands : (input.at? place).isSome)
      (once : (fields.map (·.1)).Nodup → input.at? place = some raw)
  | other (hasCode : issue.code ∉ ownCodes) (stands : (input.at? place).isSome)

end Issue

theorem Problem.code_of_refused? {problem : Problem} {kind : ParamKind}
    (h : problem.refused? = some kind) : problem.code = kind.unreadableCode := by
  cases problem <;> cases h <;> rfl

theorem Problem.code_not_mem_ownCodes {problem : Problem} (hplain : problem.isPlain = true) :
    problem.code ∉ Issue.ownCodes := by
  cases problem <;> simp_all [code, isPlain, refused?, Issue.ownCodes]

theorem Finding.IsPlaced.liesAt {catalog : Catalog} {input : Json} {f : Finding}
    (h : f.IsPlaced input) : f.issue.LiesAt catalog input f.place := by
  cases h with
  | missing object absent => exact .missingField _ _ _ rfl rfl object absent
  | @refused parent fields name raw kind problem asked object carries unreadable =>
    have hget := Document.at?_key_of_object object name
    refine .unreadable parent fields name raw kind (Problem.code_of_refused? asked) rfl object
      carries unreadable ?_ fun hdistinct => ?_
    · exact (congrArg _ hget).trans (Document.get?_isSome_of_mem carries)
    · exact hget.trans (Json.Fields.get?_of_mem hdistinct carries)
  | found plain stands => exact .other (Problem.code_not_mem_ownCodes plain) stands

theorem Remark.IsPlaced.liesAt {catalog : Catalog} {input : Json} {doc : Document}
    {place : Location} {remark : Remark} (hcheck : Document.check input = .ok doc)
    (h : remark.IsPlaced catalog input doc place) :
    (remark.issue place).LiesAt catalog input place := by
  cases remark with
  | unknownOperator reference => exact .operator reference rfl h rfl
  | unknownConstraint id => exact .constraint id rfl h rfl
  | valueNotAllowed key value reference =>
    obtain ⟨i, relation, hwritten, hrefused, rfl⟩ := h
    refine .value doc i relation key value reference rfl hcheck hwritten hrefused rfl ?_ rfl
    rw [← Json.param?_givenName, Json.at?, Json.at?_key hwritten]
    rfl
  | missingParams relation =>
    obtain ⟨i, fields, hobject, hlacks, rfl⟩ := h
    exact .missingParams doc i fields rfl hcheck rfl hobject hlacks
  | unknownInterval key id => exact h.elim
  | unreadableValue key raw => exact h.elim
  | _ => exact .other (by simp [Remark.issue, Remark.issueAt, Remark.code, Issue.ownCodes]) h

/-- **Every issue points into the document.** The path of an issue is the text of a location of
the document, and what stands there is what the issue is about: an unknown reference is the text
that the message quotes, a value that an operator does not admit is the one that counts, under
the spelling that carries it, and a value that cannot be read stands there itself. A missing field
is absent from the object around its place, and missing parameters are absent from their relation,
`null` or empty. -/
theorem issues_located (catalog : Catalog) (input : Json) (issue : Issue)
    (h : issue ∈ (compile catalog input).errors ++ (compile catalog input).warnings) :
    ∃ place : Location, issue.path = place.text ∧ issue.LiesAt catalog input place := by
  rcases mem_issues h with ⟨f, hplaced, rfl⟩ | ⟨doc, hcheck, remark, place, rfl, hplaced⟩
  · exact ⟨f.place, rfl, hplaced.liesAt⟩
  · exact ⟨place, rfl, hplaced.liesAt hcheck⟩

/-- A relation that gives ζ under both spellings and refers to a constraint that is not there. -/
def strayPattern : Json :=
  let interval (id : String) : Json :=
    .object [("end", .number (.ofUInt64 1)), ("id", .string id),
      ("predicate", .object [("name", .string "p")]), ("start", .number (.ofUInt64 0))]
  .object [("constraints", .object [("temporal", .array [
      .object [("constraintIds", .array [.string "nowhere"]), ("id", .string "r"),
        ("leftIntervalId", .string "a"), ("operatorKey", .string "Bef"),
        ("params", .object [("zeta", .string ">"), ("ζ", .string "<")]),
        ("rightIntervalId", .string "b")]])]),
    ("id", .string "m"), ("intervals", .array [interval "a", interval "b"]),
    ("name", .string "Stray"), ("schemaVersion", .string "1")]

def strayIssues : List Issue :=
  [(Remark.valueNotAllowed .zeta Comparator.greater "Bef").issueAt
      "$.constraints.temporal[0].params.zeta",
    (Remark.unknownConstraint "nowhere").issueAt "$.constraints.temporal[0].constraintIds[0]"]

theorem strayPattern_issues_located :
    strayIssues ⊆ (compile looseCatalog strayPattern).errors ++
        (compile looseCatalog strayPattern).warnings ∧
      ∀ issue ∈ strayIssues, ∃ place : Location, issue.path = place.text ∧
        issue.LiesAt looseCatalog strayPattern place := by
  have hissues : strayIssues ⊆ (compile looseCatalog strayPattern).errors ++
      (compile looseCatalog strayPattern).warnings := by decide +kernel
  exact ⟨hissues, fun issue hissue =>
    issues_located looseCatalog strayPattern issue (hissues hissue)⟩

end EventPattern
