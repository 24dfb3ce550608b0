import EventPattern.Proofs.Compilation.AuthoringOrder
import EventPattern.Proofs.Compilation.Layering
import EventPattern.Proofs.Resolution.Trail

/-! What the trail of a pattern tells.

A trail accounts for the difference between what an author writes and what becomes of it.
`Relation.Explained` says when there is an entry on a relation, in terms of what is written for
it and of what it is resolved to; nothing is left out and nothing is made up
(`trail_faithful`). -/
namespace EventPattern

namespace Relation

/-- What a trail has about a relation that names the operator `op`, gives the values `given` and
is resolved to `resolved`. -/
structure Explained (trail : List Explanation) (op : Operator) (given : ParamKey → Option Json)
    (r : Relation (Option AuthoredParams)) (resolved : Relation TypedParams) : Prop where
  rewritten : resolved.operator ≠ r.operator ↔
    ∃ e, Explanation.about trail r.id .operator = [e] ∧
      e.details = [("from", .string r.operator), ("to", .string resolved.operator)]
  kept : resolved.operator = r.operator → Explanation.about trail r.id .operator = []
  /-- The author's value is not the one that the alias fixes. -/
  overridden : ∀ key : ParamKey,
    (∃ e ∈ Explanation.about trail r.id .fixedValue,
      e.details.get? "key" = some (.string key.latin)) ↔
    ∃ link fixed raw value, op.aliasOf = some link ∧ link.fixed.get key = some fixed ∧
      given key = some raw ∧ key.kind.read? raw = some value ∧ value ≠ fixed
  /-- A value that is not given comes from the catalog. -/
  filled : ∀ key, given key = none ↔
    ∃ e ∈ Explanation.about trail r.id .defaults,
      e.rule = "R-PARAM-DEFAULTS-ALL" ∨ e.rule = "R-PARAM-DEFAULTS-MISSING" ∧ e.Lists key
  filledOnce : (Explanation.about trail r.id .defaults).length ≤ 1

variable {catalog : Catalog} {m : AuthoredModel} {r : Relation (Option AuthoredParams)}
  {op : Operator}

/-- A value that can be read is one that is given. -/
theorem get_userParams_eq_none_iff {ids : List String} (hr : r.Proper ids) (key : ParamKey) :
    (userParams r).get key = none ↔ r.authored key = none := by
  rw [get_userParams]
  cases hauthored : r.authored key with
  | none => exact iff_of_true rfl rfl
  | some raw =>
    obtain ⟨value, hread⟩ := Option.isSome_iff_exists.mp (hr.authored_readable hauthored)
    rw [Option.bind_some, hread]
    exact iff_of_false nofun nofun

/-- A decision against what an alias fixes, in terms of what the author writes. -/
theorem overridden_iff (hlookup : catalog.lookup? r.operator = some op) (key : ParamKey) :
    (∃ d ∈ decisionsOf catalog r .fixedValue, d.details.get? "key" = some (.string key.latin)) ↔
      ∃ link fixed raw value, op.aliasOf = some link ∧ link.fixed.get key = some fixed ∧
        r.authored key = some raw ∧ key.kind.read? raw = some value ∧ value ≠ fixed := by
  constructor
  · intro h
    obtain ⟨d, hd, hkey⟩ := h
    obtain ⟨other, -, hother⟩ := List.mem_filterMap.mp hd
    obtain ⟨fixed, value, hfixed, hvalue, hdiffers, rfl⟩ :=
      (overrideDecision?_eq_some catalog r).mp hother
    have hsame : other = key := ParamKey.latin_injective (Json.string.inj (Option.some.inj hkey))
    subst hsame
    rw [get_fixedParams hlookup] at hfixed
    rw [get_userParams] at hvalue
    obtain ⟨link, halias, hlink⟩ := Option.bind_eq_some_iff.mp hfixed
    obtain ⟨raw, hraw, hread⟩ := Option.bind_eq_some_iff.mp hvalue
    exact ⟨link, fixed, raw, value, halias, hlink, hraw, hread, hdiffers⟩
  · intro h
    obtain ⟨link, fixed, raw, value, halias, hlink, hraw, hread, hdiffers⟩ := h
    have hfixed : (fixedParams catalog r).get key = some fixed := by
      rw [get_fixedParams hlookup, halias, Option.bind_some, hlink]
    have hvalue : (userParams r).get key = some value := by
      rw [get_userParams, hraw, Option.bind_some, hread]
    have hdecided : overrideDecision? catalog r key =
        some (.fixedOverridden r.operator key fixed value) :=
      (overrideDecision?_eq_some catalog r).mpr ⟨fixed, value, hfixed, hvalue, hdiffers, rfl⟩
    exact ⟨_, List.mem_filterMap.mpr ⟨key, key.mem_all, hdecided⟩, rfl⟩

/-- **The trail of a model explains each of its relations.** -/
theorem explained_trail {ids : List String} (h : catalog.WellFormed)
    (hdistinct : (m.relations.map (·.id)).Nodup) (hmem : r ∈ m.relations) (hr : r.Proper ids)
    (hlookup : catalog.lookup? r.operator = some op) :
    r.Explained (m.trail catalog) op r.authored (r.resolve catalog) := by
  obtain ⟨base, hbase, -, -⟩ := base?_of_lookup? r h hlookup
  obtain ⟨hkeeps, hrewrites⟩ := operatorDecisions_exact h hlookup hbase
  have hentries (kind : Decision.Kind) : Explanation.about (m.trail catalog) r.id kind =
      Explanation.sort ((decisionsOf catalog r kind).map (Decision.explain r.id)) :=
    AuthoredModel.about_trail hdistinct hmem kind
  refine ⟨⟨fun hrewritten => ?_, fun hentry hkept => ?_⟩, fun hkept => ?_, fun key => ?_,
    fun key => ?_, ?_⟩
  · obtain ⟨d, hd, hdetails⟩ := hrewrites hrewritten
    refine ⟨d.explain r.id, ?_, hdetails⟩
    rw [hentries, decisionsOf, hd]
    rfl
  · obtain ⟨e, he, -⟩ := hentry
    rw [hentries, decisionsOf, hkeeps hkept] at he
    cases he
  · rw [hentries, decisionsOf, hkeeps hkept]
    rfl
  · rw [← overridden_iff hlookup, hentries]
    simp [Explanation.sort, Decision.explain]
  · rw [← get_userParams_eq_none_iff hr, defaultDecisions_exact catalog, hentries, decisionsOf]
    simp [Explanation.sort, Decision.explain]
  · rw [hentries, Explanation.sort, length_sortOn, List.length_map]
    exact length_defaultDecisions_le_one

end Relation

/-- A relation is known by the id that is written for it. -/
theorem Document.IsRelation.id {origin : Origin} {ids : List String} {json : Json}
    {r : Relation (Option AuthoredParams)} (h : IsRelation origin ids json r) :
    json.get? "id" = some (.string r.id) := by
  obtain ⟨fields, rfl, hfields⟩ := h
  obtain ⟨_, hget, rfl, -⟩ := hfields.id
  exact hget

/-- Where ids are distinct, a relation is found under its id once it is resolved. -/
theorem AuthoredModel.relation?_resolve_of_mem {m : AuthoredModel}
    {r : Relation (Option AuthoredParams)} (catalog : Catalog)
    (hdistinct : (m.relations.map (·.id)).Nodup) (hr : r ∈ m.relations) :
    (m.resolve catalog).relation? r.id = some (r.resolve catalog) := by
  have hfound : m.relation? r.id = some r := (find?_key_eq_some hdistinct r.id r).mpr ⟨hr, rfl⟩
  rw [m.relation?_resolve, hfound, Option.map_some]

/-- **The trail is faithful.** If the relations of an accepted document have different ids, then
the entries of the trail are in the order of their targets, then of their rules, then of their
texts, and each of them is on a relation of the document. For each relation there is one entry on
the operator, with the old and the new one, exactly where the two differ. A parameter that the
author leaves out, so that a layer of the catalog fills it, is one of those listed as missing,
unless all are defaulted; and there is an entry on a parameter that an alias fixes exactly where
the author's value is another one. -/
theorem trail_faithful (catalog : Catalog) (input : Json) (doc : Document)
    (hload : catalog.Loadable) (hcheck : Document.check input = .ok doc)
    (haccepted : (compile catalog input).isAccepted)
    (hdistinct : (doc.model.relations.map (·.id)).Nodup) :
    ((compile catalog input).trail.Pairwise fun a b => a.sortKey ≤ b.sortKey) ∧
      (∀ e ∈ (compile catalog input).trail, ∃ i json id,
        input.at? (doc.model.relationAt i) = some json ∧ json.get? "id" = some (.string id) ∧
          e.target = some id ∧ ∃ kind : Decision.Kind, e.rule ∈ kind.rules) ∧
      ∃ m, (compile catalog input).resolved = some m ∧
        ∀ i json, input.at? (doc.model.relationAt i) = some json →
          ∃ r op base, doc.model.relations[i]? = some r ∧
            json.get? "id" = some (.string r.id) ∧
            r.Layered catalog doc.model.origin json op base ∧
            m.relation? r.id = some (r.resolve catalog) ∧
            r.Explained (compile catalog input).trail op json.givenParam? (r.resolve catalog) := by
  obtain ⟨_, hsame, hproper, hadmitted, hcompile⟩ := of_isAccepted haccepted
  obtain rfl := Except.ok.inj (hcheck.symm.trans hsame)
  have hdoc := (Document.check_eq_ok_iff input doc).mp hcheck
  rw [hcompile]
  refine ⟨doc.model.pairwise_trail catalog, fun e he => ?_, _, rfl, fun i json hjson => ?_⟩
  · obtain ⟨r, hr, d, -, rfl⟩ := AuthoredModel.decision_of_mem_trail he
    obtain ⟨i, hi⟩ := List.getElem?_of_mem hr
    obtain ⟨json, hjson, hwritten⟩ := hdoc.written_at hi
    exact ⟨i, json, r.id, hjson, hwritten.id, rfl, d.kind,
      (d.rule_mem_rules d.kind).mpr rfl⟩
  · obtain ⟨r, hi, hwritten⟩ := hdoc.relation_at hjson
    have hmem := List.mem_of_getElem? hi
    have hr := hproper.relation r hmem
    obtain ⟨op, hop⟩ := hadmitted r hmem
    obtain ⟨base, hlayered⟩ := hop.layered hload.wellFormed hr hwritten
    have hexplained := Relation.explained_trail hload.wellFormed hdistinct hmem hr hop.operator
    rw [funext hwritten.authored] at hexplained
    exact ⟨r, op, base, hi, hwritten.id, hlayered,
      AuthoredModel.relation?_resolve_of_mem catalog hdistinct hmem, hexplained⟩

/-- An alias that fixes δ, for which the author gives another value. -/
def retunedRelation : Json :=
  .object [("id", .string "r"), ("leftIntervalId", .string "a"),
    ("operatorKey", .string "Allen.Starts"),
    ("params", .object [("delta", .number (.ofUInt64 3))]), ("rightIntervalId", .string "b")]

def retunedPattern : Json :=
  listedPattern [listedInterval "a", listedInterval "b"] [retunedRelation] []

theorem retunedPattern_explained :
    Catalog.embedded.Loadable ∧ (compile .embedded retunedPattern).isAccepted ∧
      ∃ (r : Relation (Option AuthoredParams)) (op : Operator), r.id = "r" ∧
        r.Explained (compile .embedded retunedPattern).trail op retunedRelation.givenParam?
          (r.resolve .embedded) := by
  have haccepted : (compile .embedded retunedPattern).isAccepted := by decide +kernel
  have hshape : (Document.check retunedPattern).toOption.any (fun doc =>
      doc.model.relationAt 0 = .index (.key (.key .root "constraints") "temporal") 0 ∧
        (doc.model.relations.map (·.id)).Nodup) := by
    decide +kernel
  obtain ⟨doc, hcheck, -⟩ := of_isAccepted haccepted
  rw [hcheck] at hshape
  obtain ⟨hfirst, hdistinct⟩ := of_decide_eq_true hshape
  obtain ⟨-, -, m, -, hrelations⟩ := trail_faithful .embedded retunedPattern doc
    Catalog.embedded_loadable hcheck haccepted hdistinct
  have hplace : retunedPattern.at? (doc.model.relationAt 0) = some retunedRelation := by
    rw [hfirst]
    rfl
  obtain ⟨r, op, base, -, hid, -, -, hexplained⟩ := hrelations 0 retunedRelation hplace
  have hr : r.id = "r" := (Json.string.inj (Option.some.inj hid)).symm
  exact ⟨Catalog.embedded_loadable, haccepted, r, op, hr, hexplained⟩

end EventPattern
