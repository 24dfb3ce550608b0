import EventPattern.Catalog.Embedded
import EventPattern.Proofs.Compilation.Acceptance
import EventPattern.Proofs.Iseql.Layout
import EventPattern.Proofs.Resolution.Layers
import EventPattern.Proofs.Sorting

/-! Which relations the text of a pattern shows.

A document may list the ids of the relations that make up the pattern. Ids of relations need not
be distinct, and looking one up gives the first relation that has it, so each id of the list
stands for one relation at most (`Picks`). What is listed is then shown as a whole exactly when
no two relations share a listed id (`Picks.perm_iff`). Resolving puts the relations into another
order, but which of them is the first of an id stays the same, so all this can be said of the
document (`selection_exact`). -/
namespace EventPattern

/-! ### Picking by id -/

section Picks
variable {P : Type} {wanted : List String} {relations picked : List (Relation P)}

/-- Of each wanted id the first relation that has it, in the order in which the ids are wanted. -/
structure Picks (wanted : List String) (relations picked : List (Relation P)) : Prop where
  mem : ∀ r, r ∈ picked ↔ r.id ∈ wanted ∧ relations.find? (·.id == r.id) = some r
  ascending : picked.Pairwise fun a b => wanted.idxOf a.id < wanted.idxOf b.id

theorem picks_filterMap (wanted : List String) (relations : List (Relation P)) :
    Picks wanted relations
      (wanted.eraseDups.filterMap fun id => relations.find? (·.id == id)) := by
  have hid {id : String} {r : Relation P} (h : relations.find? (·.id == id) = some r) :
      r.id = id := eq_of_beq (List.find?_some (p := fun r : Relation P => r.id == id) h)
  constructor
  · intro r
    simp only [List.mem_filterMap, List.mem_eraseDups]
    constructor
    · rintro ⟨id, hwanted, hfind⟩
      obtain rfl := hid hfind
      exact ⟨hwanted, hfind⟩
    · rintro ⟨hwanted, hfind⟩
      exact ⟨r.id, hwanted, hfind⟩
  · refine List.pairwise_filterMap.mpr ((pairwise_idxOf_eraseDups wanted).imp ?_)
    intro first second hlt a ha b hb
    rwa [hid ha, hid hb]

namespace Picks

theorem nodup_ids (h : Picks wanted relations picked) : (picked.map (·.id)).Nodup :=
  List.pairwise_map.mpr (h.ascending.imp fun hlt hsame => by rw [hsame] at hlt; omega)

/-- Nothing that is wanted is left out exactly if no two of the wanted relations share their id. -/
theorem perm_iff (h : Picks wanted relations picked) :
    picked.Perm (relations.filter (·.id ∈ wanted)) ↔
      ((relations.filter (·.id ∈ wanted)).map (·.id)).Nodup := by
  constructor
  · intro hperm
    exact (hperm.map _).nodup_iff.mp h.nodup_ids
  · intro hdistinct
    refine (List.perm_ext_iff_of_nodup h.nodup_ids.of_map hdistinct.of_map).mpr fun r => ?_
    rw [h.mem, List.mem_filter, decide_eq_true_iff]
    constructor
    · rintro ⟨hwanted, hfind⟩
      exact ⟨List.mem_of_find?_eq_some hfind, hwanted⟩
    · rintro ⟨hmem, hwanted⟩
      refine ⟨hwanted, ?_⟩
      have hsome : (relations.find? (·.id == r.id)).isSome :=
        List.find?_isSome.mpr ⟨r, hmem, beq_self_eq_true _⟩
      obtain ⟨first, hfirst⟩ := Option.isSome_iff_exists.mp hsome
      have hid : first.id = r.id :=
        eq_of_beq (List.find?_some (p := fun other : Relation P => other.id == r.id) hfirst)
      have hkept {other : Relation P} (hother : other ∈ relations) (hsame : other.id = r.id) :
          other ∈ relations.filter (·.id ∈ wanted) :=
        List.mem_filter.mpr ⟨hother, decide_eq_true (hsame ▸ hwanted)⟩
      rw [hfirst, List.inj_on_of_nodup_map hdistinct
        (hkept (List.mem_of_find?_eq_some hfirst) hid) (hkept hmem rfl) hid]

end Picks
end Picks

/-! ### What a text shows -/

/-- The ids that a model lists. -/
def Model.wanted {P : Type} (model : Model P) : List String :=
  (model.selection.map (·.ids)).getD []

/-- The text has a line for each of these relations and for no other, and counts them. -/
def Iseql.Shows (m : ResolvedModel) (c : Catalog) (shown : List (Relation TypedParams))
    (text : String) : Prop :=
  text = unlines
    (["# " ++ headerName m,
      "# intervals: " ++ Nat.repr m.intervals.length ++ ", relations: " ++ Nat.repr shown.length,
      "", "INTERVALS"] ++ (sortOn Interval.id m.intervals).map intervalLine ++
    ["", "RELATIONS"] ++ shown.map (relationLine m c))

/-- The relations that make up the pattern: those picked, or all of them in the order of their
ids. -/
structure Comprises (model : AuthoredModel) (picked : List (Relation (Option AuthoredParams))) :
    Prop where
  listed : model.wanted ≠ [] → Picks model.wanted model.relations picked
  unlisted : model.wanted = [] →
    picked.Perm model.relations ∧ picked.Pairwise fun a b => a.id ≤ b.id

namespace AuthoredModel
variable (model : AuthoredModel) (catalog : Catalog)

/-- What a resolved model selects comes of what the authored one does. -/
theorem exists_selected : ∃ picked, Comprises model picked ∧
    Iseql.selectedRelations (model.resolve catalog) = picked.map (Relation.resolve catalog) := by
  by_cases hnone : model.wanted = []
  · refine ⟨sortOn Relation.id model.relations, ⟨fun h => absurd hnone h, fun _ =>
      ⟨sortOn_perm _ _, pairwise_sortOn _ _⟩⟩, ?_⟩
    have hempty : (model.wanted).isEmpty = true := List.isEmpty_iff.mpr hnone
    show (if model.wanted.isEmpty = true then sortOn Relation.id (sortOn Relation.id _) else _) = _
    rw [if_pos hempty, sortOn_sortOn]
    exact sortOn_map Relation.id Relation.id (Relation.resolve catalog) (fun _ => rfl) _
  · refine ⟨_, ⟨fun _ => picks_filterMap model.wanted model.relations, fun h =>
      absurd h hnone⟩, ?_⟩
    have hfull : ¬ (model.wanted).isEmpty = true := mt List.isEmpty_iff.mp hnone
    show (if model.wanted.isEmpty = true then _ else
      model.wanted.eraseDups.filterMap (model.resolve catalog).relation?) = _
    rw [if_neg hfull, List.map_filterMap]
    exact List.filterMap_congr fun id _ => model.relation?_resolve catalog id

end AuthoredModel

/-- **The relations of an artifact.** An accepted document has its text, which shows, and counts,
each of these relations once and nothing else: where ids are listed, the first relation of each
id that is listed, in the order of the list, and all relations in the order of their ids
otherwise. -/
theorem selection_exact (catalog : Catalog) (input : Json)
    (haccepted : (compile catalog input).isAccepted) :
    ∃ doc m text picked, Document.check input = .ok doc ∧
      (compile catalog input).resolved = some m ∧ (compile catalog input).artifact = some text ∧
      Iseql.Shows m catalog (picked.map (Relation.resolve catalog)) text ∧
      Comprises doc.model picked ∧
      (doc.model.wanted ≠ [] →
        (picked.Perm (doc.model.relations.filter (·.id ∈ doc.model.wanted)) ↔
          ((doc.model.relations.filter (·.id ∈ doc.model.wanted)).map (·.id)).Nodup)) := by
  obtain ⟨doc, hcheck, -, -, hcompile⟩ := of_isAccepted haccepted
  obtain ⟨picked, hpicked, hselected⟩ := doc.model.exists_selected catalog
  refine ⟨doc, doc.model.resolve catalog, _, picked, hcheck, by rw [hcompile], by rw [hcompile],
    ?_, hpicked, fun hlisted => (hpicked.listed hlisted).perm_iff⟩
  rw [Iseql.Shows, ← hselected]
  rfl

/-- Two intervals and relations between them, each given by its id and its operator, of which
some are listed. -/
def chosenPattern (relations : List (String × String)) (listed : List String) : Json :=
  let interval (id : String) : Json :=
    .object [("end", .number (.ofUInt64 1)), ("id", .string id),
      ("predicate", .object [("name", .string "p")]), ("start", .number (.ofUInt64 0))]
  let relation (r : String × String) : Json :=
    .object [("id", .string r.1), ("left", .string "a"), ("operatorId", .string r.2),
      ("right", .string "b")]
  .object [("id", .string "m"), ("intervals", .array [interval "a", interval "b"]),
    ("meta", .object [("name", .string "M")]),
    ("relations", .array (relations.map relation)), ("schemaVersion", .string "1.0"),
    ("temporalExpression", .object [("constraintIds", .strings listed)])]

/-- A list with a repetition and with an id that no relation has. -/
theorem chosenPattern_selection :
    (compile .embedded (chosenPattern [("t", "Bef"), ("r", "LOJ"), ("s", "DJ")]
      ["s", "none", "r", "s"])).isAccepted ∧
      ∃ doc picked, Document.check (chosenPattern [("t", "Bef"), ("r", "LOJ"), ("s", "DJ")]
        ["s", "none", "r", "s"]) = .ok doc ∧ Comprises doc.model picked ∧
        doc.model.wanted = ["s", "none", "r", "s"] ∧ picked.length = 2 := by
  have haccepted : (compile .embedded (chosenPattern [("t", "Bef"), ("r", "LOJ"), ("s", "DJ")]
      ["s", "none", "r", "s"])).isAccepted := by decide +kernel
  have hlisted : (Document.check (chosenPattern [("t", "Bef"), ("r", "LOJ"), ("s", "DJ")]
      ["s", "none", "r", "s"])).toOption.all fun doc =>
        doc.model.wanted = ["s", "none", "r", "s"] ∧
        (doc.model.relations.filter (·.id ∈ doc.model.wanted)).map (·.id) = ["r", "s"] := by
    decide +kernel
  obtain ⟨doc, m, text, picked, hcheck, -, -, -, hpicked, hwhole⟩ :=
    selection_exact .embedded _ haccepted
  rw [hcheck] at hlisted
  obtain ⟨hwanted, hids⟩ := of_decide_eq_true hlisted
  have hperm := (hwhole (by rw [hwanted]; decide)).mpr (by rw [hids]; decide)
  refine ⟨haccepted, doc, picked, hcheck, hpicked, hwanted, ?_⟩
  have hlength := congrArg List.length hids
  rw [List.length_map] at hlength
  rw [hperm.length_eq, hlength]
  rfl

/-- Two relations have the listed id, and only the first of them is shown. -/
theorem chosenPattern_shared_id :
    (compile .embedded (chosenPattern [("r", "Bef"), ("r", "LOJ")] ["r"])).isAccepted ∧
      (∃ doc, Document.check (chosenPattern [("r", "Bef"), ("r", "LOJ")] ["r"]) = .ok doc ∧
        doc.model.wanted = ["r"] ∧
        doc.model.relations.map (fun r => (r.id, r.operator)) = [("r", "Bef"), ("r", "LOJ")]) ∧
      (compile .embedded (chosenPattern [("r", "Bef"), ("r", "LOJ")] ["r"])).artifact =
        some ("# M\n# intervals: 2, relations: 1\n\nINTERVALS\n@a: p()\n@b: p()\n\n" ++
          "RELATIONS\n@a Bef @b\n") := by
  refine ⟨by decide +kernel, ?_, by decide +kernel⟩
  have hfacts : (Document.check (chosenPattern [("r", "Bef"), ("r", "LOJ")] ["r"])).toOption.any
      fun doc => doc.model.wanted = ["r"] ∧
        doc.model.relations.map (fun r => (r.id, r.operator)) = [("r", "Bef"), ("r", "LOJ")] := by
    decide +kernel
  obtain ⟨doc, hcheck, hdoc⟩ := Document.exists_of_check_any hfacts
  exact ⟨doc, hcheck, of_decide_eq_true hdoc⟩

end EventPattern
