import EventPattern.Catalog.Embedded
import EventPattern.Proofs.Compilation.Acceptance
import EventPattern.Proofs.Iseql.Layout
import EventPattern.Proofs.Resolution.Layers

/-! The layout of the text that a compilation hands out.

The ids and names of a document may be any text that is not empty, and they are written as they
come. So a text is laid out as its readers expect exactly when the names in it have no line
break (`artifact_isLaidOut_iff`); a line break in an id can even be the last thing that is
written (`pairPattern_second_break`). -/
namespace EventPattern

open Iseql

theorem Document.Proper.connected_resolve {doc : Document} (h : doc.Proper) (catalog : Catalog) :
    Connected (doc.model.resolve catalog) := by
  have hids := doc.model.ids_resolve_perm catalog
  refine ⟨hids.nodup_iff.mpr h.distinct, fun resolved hresolved => ?_,
    fun resolved hresolved => ?_⟩
  · obtain ⟨r, hr, rfl⟩ := AuthoredModel.mem_relations_resolve.mp hresolved
    exact hids.mem_iff.mpr (h.relation r hr).left.2
  · obtain ⟨r, hr, rfl⟩ := AuthoredModel.mem_relations_resolve.mp hresolved
    exact hids.mem_iff.mpr (h.relation r hr).right.2

/-- **The layout of an artifact.** Every accepted compilation hands out a model and the text of
it, and this text is laid out exactly when the name of the model, the ids and the predicate
names of its intervals and the operators of its selected relations have no line break. -/
theorem artifact_isLaidOut_iff (catalog : Catalog) (input : Json)
    (haccepted : (compile catalog input).isAccepted) :
    ∃ m text, (compile catalog input).resolved = some m ∧
      (compile catalog input).artifact = some text ∧ (IsLaidOut m text ↔ PlainNames m) := by
  obtain ⟨doc, -, hproper, -, hcompile⟩ := of_isAccepted haccepted
  exact ⟨doc.model.resolve catalog, text (doc.model.resolve catalog) catalog, by rw [hcompile],
    by rw [hcompile], isLaidOut_iff (hproper.connected_resolve catalog)⟩

/-- One interval before another, of the given id. -/
def pairPattern (second : String) : Json :=
  let interval (id predicate : String) : Json :=
    .object [("end", .number (.ofUInt64 1)), ("id", .string id),
      ("predicate", .object [("name", .string predicate)]),
      ("start", .number (.ofUInt64 0))]
  .object [("id", .string "m"), ("intervals", .array [interval "a" "p", interval second "q"]),
    ("meta", .object [("name", .string "M")]),
    ("relations", .array [.object [("id", .string "r"), ("left", .string "a"),
      ("operatorId", .string "Bef"), ("right", .string second)]]),
    ("schemaVersion", .string "1.0")]

theorem pairPattern_isLaidOut :
    (compile .embedded (pairPattern "b")).isAccepted ∧
      ∃ m text, (compile .embedded (pairPattern "b")).resolved = some m ∧
        (compile .embedded (pairPattern "b")).artifact = some text ∧ IsLaidOut m text := by
  have haccepted : (compile .embedded (pairPattern "b")).isAccepted := by decide +kernel
  have hplain : (compile .embedded (pairPattern "b")).resolved.all fun m =>
      OneLine (headerName m) ∧ (∀ i ∈ m.intervals, OneLine i.id ∧ OneLine i.predicate.name) ∧
        ∀ r ∈ selectedRelations m, OneLine r.operator := by
    decide +kernel
  obtain ⟨m, text, hm, htext, hlayout⟩ :=
    artifact_isLaidOut_iff .embedded (pairPattern "b") haccepted
  rw [hm, Option.all_some, decide_eq_true_eq] at hplain
  obtain ⟨hheader, hintervals, hoperators⟩ := hplain
  exact ⟨haccepted, m, text, hm, htext, hlayout.mpr ⟨hheader, hintervals, hoperators⟩⟩

/-- An id ends with a line break, and so the text ends with two. -/
theorem pairPattern_second_break :
    (compile .embedded (pairPattern "b\n")).isAccepted ∧
      ∃ m text, (compile .embedded (pairPattern "b\n")).resolved = some m ∧
        (compile .embedded (pairPattern "b\n")).artifact = some text ∧
        ¬ IsLaidOut m text ∧
        text = "# M\n# intervals: 2, relations: 1\n\nINTERVALS\n@a: p()\n@b\n: q()\n\n" ++
          "RELATIONS\n@a Bef @b\n\n" := by
  have haccepted : (compile .embedded (pairPattern "b\n")).isAccepted := by decide +kernel
  have htext : (compile .embedded (pairPattern "b\n")).artifact =
      some ("# M\n# intervals: 2, relations: 1\n\nINTERVALS\n@a: p()\n@b\n: q()\n\n" ++
        "RELATIONS\n@a Bef @b\n\n") := by
    decide +kernel
  obtain ⟨doc, -, -, -, hcompile⟩ := of_isAccepted haccepted
  refine ⟨haccepted, doc.model.resolve .embedded, _, by rw [hcompile], htext, ?_, rfl⟩
  intro h
  obtain ⟨-, body, hbody, hending⟩ := h
  have hbreaks : "# M\n# intervals: 2, relations: 1\n\nINTERVALS\n@a: p()\n@b\n: q()\n\n".toList ++
      "RELATIONS\n@a Bef @b\n".toList ++ ['\n'] = body ++ ['\n'] := by
    rw [← hbody]
    decide
  rw [← List.append_cancel_right hbreaks] at hending
  exact hending (by decide)

end EventPattern
