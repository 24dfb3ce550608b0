import EventPattern.Proofs.Compilation.Outcome
import EventPattern.Proofs.Document.Acceptance
import EventPattern.Proofs.Document.Written

/-! The verdict on a document.

The check takes the documents of the grammar and answers everything else with issues
(`check_exact`). A document that was taken is taken again, as the same one, when it is written
down (`check_toJson`). In the grammar a parameter is a field under one of ten names with a value
that can be read; `ParamKind.Domain` says what these values look like when they are written. -/
namespace EventPattern

/-! ### The closed domains -/

/-- The values that a kind of parameter takes, as they are written. -/
def ParamKind.Domain : ParamKind → Json → Prop
  | .comparator, json => ∃ text ∈ ["<", "≤", "<=", "=", "≥", ">=", ">"], json = .string text
  | .threshold, json =>
    json = .string Threshold.infinitySign ∨ ∃ n, json = .number n ∧ .zero ≤ n.value
  | .amount, json => ∃ n, json = .number n ∧ .zero ≤ n.value

theorem Comparator.ofText?_isSome_iff (text : String) :
    (ofText? text).isSome ↔ text ∈ ["<", "≤", "<=", "=", "≥", ">=", ">"] := by
  simp only [List.mem_cons, List.not_mem_nil, or_false]
  unfold ofText?
  grind

theorem nonNegative?_isSome_iff (json : Json) :
    (nonNegative? json).isSome ↔ ∃ n, json = .number n ∧ .zero ≤ n.value := by
  cases json with
  | number n => simp [nonNegative?, Json.number?]
  | _ => simp [nonNegative?, Json.number?]

theorem Threshold.ofJson?_isSome_iff (json : Json) :
    (ofJson? json).isSome ↔
      json = .string infinitySign ∨ ∃ n, json = .number n ∧ .zero ≤ n.value := by
  cases json with
  | string text => simp [ofJson?]
  | number n => simp [ofJson?, ofNumber?]
  | _ => simp [ofJson?]

/-- A value can be read exactly when it lies in the domain of its kind. -/
theorem ParamKind.read?_isSome_iff (kind : ParamKind) (json : Json) :
    (kind.read? json).isSome ↔ kind.Domain json := by
  cases kind with
  | comparator =>
    show (json.string?.bind Comparator.ofText?).isSome ↔ _
    cases json with
    | string text => simp [Json.string?, Comparator.ofText?_isSome_iff, Domain]
    | _ => simp [Json.string?, Domain]
  | threshold => exact Threshold.ofJson?_isSome_iff json
  | amount => exact nonNegative?_isSome_iff json

namespace Document

/-- The parameters of a relation have ten names, and under each the values of its key. -/
theorem isParam_iff (field : String × Json) :
    IsParam field ↔
      ∃ (key : ParamKey) (spelling : Spelling),
        field.1 = key.spelled spelling ∧ key.kind.Domain field.2 := by
  constructor
  · intro h
    obtain ⟨key, spelling, hname, hread⟩ := h
    exact ⟨key, spelling, ParamKey.eq_spelled_of_ofName? hname,
      (key.kind.read?_isSome_iff _).mp hread⟩
  · intro h
    obtain ⟨key, spelling, hname, hvalue⟩ := h
    refine ⟨key, spelling, ?_, (key.kind.read?_isSome_iff _).mpr hvalue⟩
    rw [hname]
    exact key.ofName?_spelled spelling

/-! ### The verdict -/

/-- Whatever is not in the grammar has issues, and only that. -/
theorem check_eq_error_iff (input : Json) :
    (∃ first more, check input = .error (first :: more)) ↔ ∀ doc, ¬ IsDocument input doc := by
  constructor
  · intro h doc hdoc
    obtain ⟨first, more, herror⟩ := h
    rw [(check_eq_ok_iff input doc).mpr hdoc] at herror
    cases herror
  · intro h
    cases hcheck : check input with
    | ok doc => exact absurd ((check_eq_ok_iff input doc).mp hcheck) (h doc)
    | error issues =>
      obtain ⟨first, more, rfl⟩ := List.exists_cons_of_ne_nil (issues_of_check hcheck).1
      exact ⟨first, more, rfl⟩

/-- **The check accepts exactly its grammar.** It gives a document for a document of the grammar,
the one that is written there, and for everything else at least one issue; the domains of the
grammar are closed, for the parameters of a relation and for a value beside its key. -/
theorem check_exact (input : Json) :
    (∀ doc, check input = .ok doc ↔ IsDocument input doc) ∧
    ((∃ first more, check input = .error (first :: more)) ↔ ∀ doc, ¬ IsDocument input doc) ∧
    (∀ field, IsParam field ↔
      ∃ (key : ParamKey) (spelling : Spelling),
        field.1 = key.spelled spelling ∧ key.kind.Domain field.2) ∧
    ∀ (key : ParamKey) (json : Json), (key.kind.read? json).isSome ↔ key.kind.Domain json :=
  ⟨check_eq_ok_iff input, check_eq_error_iff input, isParam_iff,
    fun key json => key.kind.read?_isSome_iff json⟩

/-! ### Written down and checked again -/

/-- **An accepted document survives being written down**, whatever it was read from. -/
theorem check_toJson {input : Json} {doc : Document} (h : check input = .ok doc) :
    check doc.toJson = .ok doc :=
  (check_eq_ok_iff _ doc).mpr (isDocument_toJson ((check_eq_ok_iff input doc).mp h).proper)

/-- Parameters that are absent, null, empty, and written in both spellings at once. -/
def variedParams : List (List (String × Json)) :=
  [[], [("params", .null)], [("params", .object [])],
    [("params", .object [("zeta", .string "<="), ("ζ", .string "<"), ("δ", .string "∞")])]]

def variedInterval (id : String) : Json :=
  .object [("end", .number (.int 2 (by decide))), ("id", .string id),
    ("predicate", .object [("args", .array []), ("name", .string "p")]),
    ("start", .number (.int 1 (by decide)))]

/-- A pattern of the legacy shape with such relations, and with empty lists. -/
def variedLegacyPattern : Json :=
  .object [("constraints", .object [
      ("extra", .array [.object [("id", .string "c"), ("kind", .string "robustness"),
        ("payload", .object [])]]),
      ("temporal", .array (variedParams.map fun params => .object ([("constraintIds", .array []),
        ("id", .string "r"), ("leftIntervalId", .string "a"), ("operatorKey", .string "Bef"),
        ("rightIntervalId", .string "b")] ++ params)))]),
    ("createdAt", .string "today"), ("id", .string "m"),
    ("intervals", .array [variedInterval "a", variedInterval "b"]), ("name", .string "Varied"),
    ("schemaVersion", .string "1"),
    ("temporalExpression", .object [("constraintIds", .array [])])]

/-- One of the canonical shape, with constraints of both kinds. -/
def variedCanonicalPattern : Json :=
  .object [("constraints", .object [("constraints", .array [
      .object [("id", .string "n"), ("kind", .string "note"), ("text", .string "")],
      .object [("id", .string "c"), ("kind", .string "relationParam"), ("param", .string "δ"),
        ("relationId", .string "r"), ("value", .number (.int 3 (by decide)))]])]),
    ("id", .string "m"), ("intervals", .array [variedInterval "a", variedInterval "b"]),
    ("meta", .object [("createdAtISO", .string "today"), ("name", .string "Varied")]),
    ("relations", .array (variedParams.map fun params => .object ([("constraintIds", .array []),
      ("id", .string "r"), ("left", .string "a"), ("operatorId", .string "Bef"),
      ("right", .string "b")] ++ params))),
    ("schemaVersion", .string "1.0")]

theorem varied_toJson :
    (∃ doc, check variedLegacyPattern = .ok doc ∧ doc.version = legacyVersion ∧
      check doc.toJson = .ok doc) ∧
    ∃ doc, check variedCanonicalPattern = .ok doc ∧ doc.version = canonicalVersion ∧
      check doc.toJson = .ok doc := by
  constructor
  · obtain ⟨doc, hcheck, hversion⟩ :=
      exists_of_check_any (p := fun doc => doc.version = legacyVersion)
        (by decide +kernel : (check variedLegacyPattern).toOption.any _ = true)
    exact ⟨doc, hcheck, of_decide_eq_true hversion, check_toJson hcheck⟩
  · obtain ⟨doc, hcheck, hversion⟩ :=
      exists_of_check_any (p := fun doc => doc.version = canonicalVersion)
        (by decide +kernel : (check variedCanonicalPattern).toOption.any _ = true)
    exact ⟨doc, hcheck, of_decide_eq_true hversion, check_toJson hcheck⟩

end Document
end EventPattern
