import EventPattern.Catalog.Embedded
import EventPattern.Proofs.Compilation.Acceptance
import EventPattern.Proofs.Resolution.Rearranging
import Mathlib.Tactic.Tauto

/-! The order of a document does not matter.

An accepted document may be rearranged (`Document.Rearranged`): as long as ids tell its relations
and its further constraints apart, the outcome, the text and the trail stay what they are
(`authoring_order_forgotten`). The catalog sees the same relations with the same constraints
(`AuthoredModel.Rearranged.admitted`), and what is resolved is put in the order of the ids
anyway. -/
namespace EventPattern

variable {catalog : Catalog} {input other : Json} {doc : Document}

namespace AuthoredModel.Rearranged

variable {m other : AuthoredModel}
  {S : Relation (Option AuthoredParams) → Relation (Option AuthoredParams) → Prop}

theorem constraint?_eq (h : m.Rearranged S other) (hdistinct : m.Distinct) (id : String) :
    other.constraint? id = m.constraint? id :=
  (find?_eq_of_perm Constraint.id h.constraints hdistinct.constraints id).symm

/-- What is admitted is so in any order. -/
theorem admitted (hS : ∀ r s, S r s → r.Alike s) (h : m.Rearranged S other)
    (hdistinct : m.Distinct) (hadmitted : ∀ r ∈ m.relations, ∃ op, r.Admitted m catalog op) :
    ∀ s ∈ other.relations, ∃ op, s.Admitted other catalog op := by
  intro s hs
  obtain ⟨r, hr, hrs⟩ := h.relations.exists_of_mem hs
  obtain ⟨hframe, hreferences⟩ := hS r s hrs
  obtain ⟨op, hop⟩ := hadmitted r hr
  refine ⟨op, ?_, fun id hid => ?_, fun id hid c hc => ?_, fun key raw value hraw hvalue => ?_⟩
  · rw [hframe]
    exact hop.operator
  · exact (h.constraints.map _).subset (hop.constraints id ((hreferences id).mpr hid))
  · rw [h.constraint?_eq hdistinct] at hc
    exact hop.supported id ((hreferences id).mpr hid) c hc
  · rw [hframe] at hraw
    exact hop.values key raw value hraw hvalue

end AuthoredModel.Rearranged

/-- A rearranged document is accepted, and its model is that of the first one, rearranged. -/
theorem compile_rearranged {R : Json → Json → Prop}
    {S : Relation (Option AuthoredParams) → Relation (Option AuthoredParams) → Prop}
    (hrelations : Document.LiftsRelations R S) (hS : ∀ r s, S r s → r.Alike s)
    (hcheck : Document.check input = .ok doc) (hdistinct : doc.model.Distinct)
    (hadmitted : ∀ r ∈ doc.model.relations, ∃ op, r.Admitted doc.model catalog op)
    (hrearranged : Document.Rearranged R input other) :
    ∃ doc' : Document, doc.model.Rearranged S doc'.model ∧ (compile catalog other).isAccepted ∧
      (compile catalog other).artifact = some (Iseql.text (doc.model.resolve catalog) catalog) ∧
      (compile catalog other).trail = doc.model.trail catalog ∧
      (compile catalog other).resolved = some (doc'.model.resolve catalog) := by
  have hdoc := (Document.check_eq_ok_iff input doc).mp hcheck
  obtain ⟨doc', hdoc', hmodel⟩ := hdoc.rearranged hrelations hrearranged
  have hcheck' := (Document.check_eq_ok_iff other doc').mpr hdoc'
  have hadmitted' := hmodel.admitted hS hdistinct hadmitted
  have hcompile := compile_of_admitted hcheck' hadmitted'
  refine ⟨doc', hmodel, (isAccepted_iff_admitted catalog other).mpr ⟨doc', hcheck', hadmitted'⟩,
    ?_, ?_, ?_⟩
  · rw [hcompile, hmodel.text_eq hS hdistinct]
  · rw [hcompile, hmodel.trail_eq hS hdistinct]
  · rw [hcompile]

/-- **The order of a document does not matter.** If an accepted document has different ids for its
relations and for its further constraints, then it is accepted in any order of its intervals, of
its relations and of its further constraints, and with the references of its relations to
constraints in any order and repeated; the text and the trail are the same. Where the references
are left as they are, the resolved model is the same too. -/
theorem authoring_order_forgotten (catalog : Catalog) (input : Json) (doc : Document)
    (hcheck : Document.check input = .ok doc) (haccepted : (compile catalog input).isAccepted)
    (hrelations : (doc.model.relations.map (·.id)).Nodup)
    (hconstraints : (doc.model.constraints.map (·.id)).Nodup) :
    (∀ other, Document.Rearranged Document.SameRelation input other →
      (compile catalog other).isAccepted ∧
        (compile catalog other).artifact = (compile catalog input).artifact ∧
        (compile catalog other).trail = (compile catalog input).trail) ∧
    ∀ other, Document.Rearranged (· = ·) input other →
      (compile catalog other).isAccepted ∧
        (compile catalog other).artifact = (compile catalog input).artifact ∧
        (compile catalog other).trail = (compile catalog input).trail ∧
        (compile catalog other).resolved = (compile catalog input).resolved := by
  obtain ⟨_, hsame, hproper, hadmitted, hcompile⟩ := of_isAccepted haccepted
  obtain rfl := Except.ok.inj (hcheck.symm.trans hsame)
  have hdistinct : doc.model.Distinct := ⟨hproper.distinct, hrelations, hconstraints⟩
  rw [hcompile]
  constructor
  · intro other hother
    obtain ⟨_, -, hagain, htext, htrail, -⟩ := compile_rearranged
      Document.liftsRelations_sameRelation (fun _ _ h => h) hcheck hdistinct hadmitted hother
    exact ⟨hagain, htext, htrail⟩
  · intro other hother
    obtain ⟨doc', hmodel, hagain, htext, htrail, hresolved⟩ := compile_rearranged
      Document.liftsRelations_eq (fun r _ h => h ▸ .refl r) hcheck hdistinct hadmitted hother
    refine ⟨hagain, htext, htrail, ?_⟩
    rw [hresolved, hmodel.resolve_eq hdistinct]

/-- A pattern of given intervals, relations and further constraints. -/
def listedPattern (intervals temporal extra : List Json) : Json :=
  .object [("constraints", .object [("extra", .array extra), ("temporal", .array temporal)]),
    ("id", .string "m"), ("intervals", .array intervals), ("name", .string "Listed"),
    ("schemaVersion", .string "1")]

def listedInterval (id : String) : Json :=
  .object [("end", .number (.ofUInt64 1)), ("id", .string id),
    ("predicate", .object [("name", .string "p")]), ("start", .number (.ofUInt64 0))]

def listedRelation (id left right : String) (references : List String) : Json :=
  .object [("constraintIds", .strings references), ("id", .string id),
    ("leftIntervalId", .string left), ("operatorKey", .string "Bef"),
    ("rightIntervalId", .string right)]

def listedConstraint (id kind : String) : Json :=
  .object [("id", .string id), ("kind", .string kind)]

def pairedPattern : Json :=
  listedPattern [listedInterval "a", listedInterval "b"]
    [listedRelation "r" "a" "b" ["c", "d"], listedRelation "s" "b" "a" []]
    [listedConstraint "c" "cardinality", listedConstraint "d" "note"]

/-- Everything the other way round, and one reference twice. -/
def turnedPattern : Json :=
  listedPattern [listedInterval "b", listedInterval "a"]
    [listedRelation "s" "b" "a" [], listedRelation "r" "a" "b" ["d", "c", "d"]]
    [listedConstraint "d" "note", listedConstraint "c" "cardinality"]

theorem turnedPattern_rearranged :
    Document.Rearranged Document.SameRelation pairedPattern turnedPattern := by
  have hswap {α : Type} (a b : α) : [a, b].Perm [b, a] := .swap b a []
  have hsame (id left right : String) {references others : List String}
      (h : ∀ item, item ∈ references.map Json.string ↔ item ∈ others.map Json.string) :
      Document.SameRelation (listedRelation id left right references)
        (listedRelation id left right others) :=
    ⟨_, _, rfl, rfl, .cons ⟨rfl, _, _, rfl, rfl, h⟩
      (.cons ⟨rfl, rfl⟩ (.cons ⟨rfl, rfl⟩ (.cons ⟨rfl, rfl⟩ (.cons ⟨rfl, rfl⟩ .nil))))⟩
  refine ⟨_, _, rfl, rfl, .cons ⟨rfl, _, _, rfl, rfl, ?_⟩ (.cons ⟨rfl, rfl⟩
    (.cons ⟨rfl, _, _, rfl, rfl, _, hswap _ _, List.forall₂_same.mpr fun _ _ => rfl⟩
      (.cons ⟨rfl, rfl⟩ (.cons ⟨rfl, rfl⟩ .nil))))⟩
  refine .cons ⟨rfl, _, _, rfl, rfl, _, hswap _ _, List.forall₂_same.mpr fun _ _ => rfl⟩
    (.cons ⟨rfl, _, _, rfl, rfl, _, hswap _ _, ?_⟩ .nil)
  refine .cons (hsame "s" "b" "a" fun _ => .rfl) (.cons (hsame "r" "a" "b" fun item => ?_) .nil)
  simp only [List.map_cons, List.map_nil, List.mem_cons, List.not_mem_nil, or_false]
  tauto

theorem turnedPattern_forgotten :
    (compile .embedded pairedPattern).isAccepted ∧
      (compile .embedded turnedPattern).isAccepted ∧
      (compile .embedded turnedPattern).artifact = (compile .embedded pairedPattern).artifact ∧
      (compile .embedded turnedPattern).trail = (compile .embedded pairedPattern).trail := by
  have haccepted : (compile .embedded pairedPattern).isAccepted := by decide +kernel
  have hids : (Document.check pairedPattern).toOption.any (fun doc =>
      (doc.model.relations.map (·.id)).Nodup ∧ (doc.model.constraints.map (·.id)).Nodup) := by
    decide +kernel
  obtain ⟨doc, hcheck, -⟩ := of_isAccepted haccepted
  rw [hcheck] at hids
  obtain ⟨hrelations, hconstraints⟩ := of_decide_eq_true hids
  exact ⟨haccepted, (authoring_order_forgotten .embedded pairedPattern doc hcheck haccepted
    hrelations hconstraints).1 turnedPattern turnedPattern_rearranged⟩

end EventPattern
