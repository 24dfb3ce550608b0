import EventPattern.Catalog.Embedded
import EventPattern.Proofs.Compilation.Acceptance
import EventPattern.Proofs.Document.Places
import EventPattern.Proofs.Resolution.Layers
import EventPattern.Proofs.Review.Advice

/-! From what an author writes to the parameters of the pattern.

A value comes from the topmost layer that has one: the author, then the alias that is named,
then the base operator behind it (`Layer`). Read off the document itself, and not off what the
check made of it, this says that a value written there is the one in the pattern
(`parameters_layered`); where two spellings compete, a warning names the one that yields. -/
namespace EventPattern

/-! ### What is written -/

/-- What a relation gives for a parameter under one spelling. -/
def Json.param? (relation : Json) (name : String) : Option Json :=
  (relation.get? "params").bind (·.get? name)

/-- What a relation gives for a parameter: the Latin spelling comes before the Greek one. -/
def Json.givenParam? (relation : Json) (key : ParamKey) : Option Json :=
  (relation.param? key.latin).or (relation.param? key.greek)

namespace Document

open Json (Fields)

/-- The check keeps what stands under each spelling. -/
theorem HasFieldOr.param? {fields : Fields} {given : Option AuthoredParams}
    (h : HasFieldOr fields "params" none IsParams given) (key : ParamKey) :
    (given.bind (·.latin.get key) = (Json.object fields).param? key.latin) ∧
      (given.bind (·.greek.get key) = (Json.object fields).param? key.greek) := by
  unfold Json.param?
  rw [Json.get?_object]
  rcases h with ⟨hnone, rfl⟩ | ⟨_, hget, ⟨rfl, rfl⟩ | ⟨inner, rfl, -, rfl⟩⟩
  · rw [hnone]
    exact ⟨rfl, rfl⟩
  · rw [hget]
    exact ⟨rfl, rfl⟩
  · rw [hget]
    exact ⟨ParamRecord.get_ofFn _ key, ParamRecord.get_ofFn _ key⟩

theorem IsRelation.authored {origin : Origin} {ids : List String} {json : Json}
    {r : Relation (Option AuthoredParams)} (h : IsRelation origin ids json r) (key : ParamKey) :
    r.authored key = json.givenParam? key := by
  obtain ⟨fields, rfl, hfields⟩ := h
  obtain ⟨hlatin, hgreek⟩ := hfields.params.param? key
  rw [Json.givenParam?, ← hlatin, ← hgreek, Relation.authored]
  cases r.params <;> rfl

theorem IsRelation.operator {origin : Origin} {ids : List String} {json : Json}
    {r : Relation (Option AuthoredParams)} (h : IsRelation origin ids json r) :
    json.get? origin.operatorKey = some (.string r.operator) := by
  obtain ⟨fields, rfl, hfields⟩ := h
  obtain ⟨_, hget, rfl, -⟩ := hfields.operator
  exact hget

/-- A Greek spelling in the document is one in the model. -/
theorem IsRelation.greek {origin : Origin} {ids : List String} {json : Json}
    {r : Relation (Option AuthoredParams)} (h : IsRelation origin ids json r) {key : ParamKey}
    (hgreek : (json.param? key.greek).isSome) :
    ∃ params, r.params = some params ∧ (params.greek.get key).isSome := by
  obtain ⟨fields, rfl, hfields⟩ := h
  rw [← (hfields.params.param? key).2] at hgreek
  cases hparams : r.params with
  | none =>
    rw [hparams] at hgreek
    cases hgreek
  | some params =>
    rw [hparams] at hgreek
    exact ⟨params, rfl, hgreek⟩

end Document

/-! ### Layers -/

/-- Where the value of a parameter comes from, for a relation that names the operator `op`. -/
inductive Layer (op base : Operator) (given : Option Json) (key : ParamKey) (value : key.Value) :
    Prop where
  | author (raw : Json) (isGiven : given = some raw) (read : key.kind.read? raw = some value)
  | fixed (link : Alias) (notGiven : given = none) (isAlias : op.aliasOf = some link)
      (isFixed : link.fixed.get key = some value)
  | default (notGiven : given = none)
      (notFixed : ∀ link, op.aliasOf = some link → link.fixed.get key = none)
      (isDefault : base.defaults.get key = some value)

namespace Relation

variable {catalog : Catalog} {r : Relation (Option AuthoredParams)} {op base : Operator}

theorem get_fixedParams (hlookup : catalog.lookup? r.operator = some op) (key : ParamKey) :
    (fixedParams catalog r).get key = op.aliasOf.bind (·.fixed.get key) := by
  rw [fixedParams, hlookup, Option.bind_some]
  cases op.aliasOf with
  | none => cases key <;> rfl
  | some link => rfl

/-- Every parameter of a resolved relation has a value, and it comes from the topmost layer. -/
theorem layer_resolvedParams {ids : List String} (h : catalog.WellFormed) (hr : r.Proper ids)
    (hlookup : catalog.lookup? r.operator = some op) (hbase : base? catalog r = some base)
    (key : ParamKey) :
    ∃ value, (resolvedParams catalog r).get key = some value ∧
      Layer op base (r.authored key) key value := by
  cases hauthored : r.authored key with
  | some raw =>
    obtain ⟨value, hread⟩ := Option.isSome_iff_exists.mp (hr.authored_readable hauthored)
    exact ⟨value, get_of_authored catalog r hauthored hread, .author raw rfl hread⟩
  | none =>
    have hfixed := get_fixedParams hlookup key
    cases hget : (fixedParams catalog r).get key with
    | some value =>
      rw [hget] at hfixed
      obtain ⟨link, halias, hvalue⟩ := Option.bind_eq_some_iff.mp hfixed.symm
      exact ⟨value, get_of_fixed catalog r hauthored hget, .fixed link rfl halias hvalue⟩
    | none =>
      obtain ⟨hmem, hnone⟩ := base?_mem r h hbase
      have hcomplete := (h.operators base hmem).complete hnone
      obtain ⟨value, hvalue⟩ := Option.isSome_iff_exists.mp
        ((ParamRecord.isComplete_iff _).mp hcomplete key)
      refine ⟨value, (get_of_base r h hauthored hget hbase).trans hvalue, ?_⟩
      refine .default rfl (fun link halias => ?_) hvalue
      rw [hget, halias] at hfixed
      exact hfixed.symm

/-- What a relation of an accepted document, written as `json`, is resolved to. -/
structure Layered (catalog : Catalog) (origin : Origin) (json : Json)
    (r : Relation (Option AuthoredParams)) (op base : Operator) : Prop where
  reference : json.get? origin.operatorKey = some (.string r.operator)
  named : catalog.lookup? r.operator = some op
  behind : catalog.base? op = some base ∧ base.aliasOf = none
  values : ∀ key, ∃ value, (r.resolve catalog).params.get key = some value ∧
    Layer op base (json.givenParam? key) key value

theorem Admitted.layered {model : AuthoredModel} {origin : Origin} {ids : List String}
    {json : Json} (h : catalog.WellFormed) (hr : r.Proper ids)
    (hwritten : Document.IsRelation origin ids json r) (hop : r.Admitted model catalog op) :
    ∃ base, r.Layered catalog origin json op base := by
  obtain ⟨base, hbase, -, hnone⟩ := r.base?_of_lookup? h hop.operator
  have hbehind := (base?_of_named hop.operator).symm.trans hbase
  refine ⟨base, hwritten.operator, hop.operator, ⟨hbehind, hnone⟩, fun key => ?_⟩
  rw [← hwritten.authored]
  exact layer_resolvedParams h hr hop.operator hbase key

end Relation

/-! ### The parameters of a pattern -/

/-- What the review advises is among the warnings. -/
theorem Document.mem_warnings {doc : Document} {catalog : Catalog} {issue : Issue}
    (h : issue ∈ (Review.ofModel doc.model catalog).warnings) :
    issue ∈ doc.warnings catalog := by
  unfold warnings
  rw [Issue.sort, mem_sortOn, Issue.distinct, List.mem_eraseDups]
  exact List.mem_append_right _ h

/-- **Parameters are layered, and nothing that is written is lost.** The relations of an accepted
pattern are those of its document, resolved. Each of them has a value for every parameter: the
one its author writes, under the Latin spelling or else the Greek one, or else the one that the
named alias fixes, or else the default of the base operator. A Greek spelling never goes
unnoticed: a warning on the relation's parameters names it. -/
theorem parameters_layered (catalog : Catalog) (input : Json) (hload : catalog.Loadable)
    (haccepted : (compile catalog input).isAccepted) :
    ∃ doc m, Document.check input = .ok doc ∧ (compile catalog input).resolved = some m ∧
      m.relations.Perm (doc.model.relations.map (Relation.resolve catalog)) ∧
      doc.model.relations.length = (input.itemsAt doc.model.origin.relations).length ∧
      ∀ i json, input.at? (doc.model.relationAt i) = some json →
        ∃ r op base, doc.model.relations[i]? = some r ∧
          r.Layered catalog doc.model.origin json op base ∧
          ∀ key : ParamKey, (json.param? key.greek).isSome →
            ∃ names, key.greek ∈ names ∧
              (Remark.greekKeys names).issue (.key (doc.model.relationAt i) "params") ∈
                (compile catalog input).warnings := by
  obtain ⟨doc, hcheck, hproper, hadmitted, hcompile⟩ := of_isAccepted haccepted
  have hdoc := (Document.check_eq_ok_iff input doc).mp hcheck
  have hsound : ∀ r ∈ doc.model.relations, Review.Sound doc.model catalog r := fun r hr =>
    (Review.sound_iff_admitted (hproper.relation r hr)).mpr (hadmitted r hr)
  refine ⟨doc, doc.model.resolve catalog, hcheck, by rw [hcompile], sortOn_perm Relation.id _,
    hdoc.relations.length_eq.symm, fun i json hjson => ?_⟩
  obtain ⟨r, hr, hwritten⟩ := hdoc.relation_at hjson
  have hmem := List.mem_of_getElem? hr
  obtain ⟨op, hop⟩ := hadmitted r hmem
  obtain ⟨base, hlayered⟩ := hop.layered hload.wellFormed (hproper.relation r hmem) hwritten
  refine ⟨r, op, base, hr, hlayered, fun key hgreek => ?_⟩
  obtain ⟨params, hparams, hkey⟩ := hwritten.greek hgreek
  obtain ⟨names, hnames, hwarned⟩ := Review.greekKeys_advised hsound hr hparams hkey
  refine ⟨names, hnames, ?_⟩
  rw [hcompile]
  exact Document.mem_warnings hwarned

/-- An alias that fixes δ, with both spellings of ζ and the Greek one of ε. -/
def startingRelation : Json :=
  .object [("id", .string "r"), ("leftIntervalId", .string "a"),
    ("operatorKey", .string "Allen.Starts"),
    ("params", .object [("zeta", .string "<"), ("ε", .number (.ofUInt64 5)), ("ζ", .string ">")]),
    ("rightIntervalId", .string "b")]

def startingPattern : Json :=
  let interval (id : String) (stop : UInt64) : Json :=
    .object [("end", .number (.ofUInt64 stop)), ("id", .string id),
      ("predicate", .object [("name", .string "p")]), ("start", .number (.ofUInt64 0))]
  .object [("constraints", .object [("temporal", .array [startingRelation])]),
    ("id", .string "m"), ("intervals", .array [interval "a" 1, interval "b" 2]),
    ("name", .string "Starting"), ("schemaVersion", .string "1")]

theorem startingPattern_layered :
    Catalog.embedded.Loadable ∧ (compile .embedded startingPattern).isAccepted ∧
      ∃ m, (compile .embedded startingPattern).resolved = some m ∧
        ∃ (r : Relation (Option AuthoredParams)) (origin : Origin) (op base : Operator),
          r.resolve .embedded ∈ m.relations ∧
            r.Layered .embedded origin startingRelation op base := by
  have haccepted : (compile .embedded startingPattern).isAccepted := by decide +kernel
  have horigin : (Document.check startingPattern).toOption.map (·.model.relationAt 0) =
      some (.index (.key (.key .root "constraints") "temporal") 0) := by decide +kernel
  obtain ⟨doc, m, hcheck, hm, hperm, -, hrelations⟩ :=
    parameters_layered .embedded startingPattern Catalog.embedded_loadable haccepted
  rw [hcheck] at horigin
  have hfirst : doc.model.relationAt 0 = .index (.key (.key .root "constraints") "temporal") 0 :=
    Option.some.inj horigin
  have hplace : startingPattern.at? (doc.model.relationAt 0) = some startingRelation := by
    rw [hfirst]
    rfl
  obtain ⟨r, op, base, hr, hlayered, -⟩ := hrelations 0 startingRelation hplace
  refine ⟨Catalog.embedded_loadable, haccepted, m, hm, r, _, op, base, ?_, hlayered⟩
  exact hperm.mem_iff.mpr (List.mem_map_of_mem (List.mem_of_getElem? hr))

end EventPattern
