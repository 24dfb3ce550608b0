import EventPattern.Proofs.Iseql.LineBreaks
import Mathlib.Data.List.Forall2

/-! What a reader of ISEQL text finds when taking it apart at its line breaks.

`IsLaidOut` is the layout that such a reader relies on. Every line is written with one line
break behind it, so the pieces of a text are its lines exactly when no line has a line break of
its own; a text with such a line has too many pieces (`oneLine_of_length`). The lines of a model
have none unless one of its names does (`isLaidOut_iff`). -/
namespace EventPattern

/-! ### Taking a text apart -/

/-- The pieces of a text between its line breaks. -/
def splitLines (text : String) : List String := (text.toList.splitOn '\n').map String.ofList

/-- Some lines, each with a line break behind it. -/
def unlines (lines : List String) : String := String.join (lines.map (· ++ "\n"))

theorem splitLines_of_oneLine {text : String} (h : OneLine text) : splitLines text = [text] := by
  rw [splitLines, List.splitOn_eq_singleton h, List.map_singleton, String.ofList_toList]

theorem splitLines_append_break (a b : String) :
    splitLines (a ++ "\n" ++ b) = splitLines a ++ splitLines b := by
  have hbreak : (a ++ "\n" ++ b).toList = a.toList ++ '\n' :: b.toList := by simp
  rw [splitLines, hbreak, List.splitOn_append_cons_self, List.map_append]
  rfl

theorem length_splitOn (c : Char) (chars : List Char) :
    (chars.splitOn c).length = chars.count c + 1 := by
  induction chars with
  | nil => rfl
  | cons first rest ih =>
    rw [List.splitOn_cons_eq_if_modifyHead, List.count_cons]
    split
    · rw [List.length_cons, ih]
    · rw [List.length_modifyHead, ih, Nat.add_zero]

theorem length_splitLines (text : String) :
    (splitLines text).length = text.toList.count '\n' + 1 := by
  rw [splitLines, List.length_map, length_splitOn]

theorem unlines_cons (line : String) (rest : List String) :
    unlines (line :: rest) = line ++ "\n" ++ unlines rest := by
  rw [unlines, List.map_cons, String.join_cons]
  rfl

theorem splitLines_unlines_cons (line : String) (rest : List String) :
    splitLines (unlines (line :: rest)) = splitLines line ++ splitLines (unlines rest) := by
  rw [unlines_cons, splitLines_append_break]

/-- Lines without line breaks are found again, and nothing behind the last one. -/
theorem splitLines_unlines {lines : List String} (h : ∀ line ∈ lines, OneLine line) :
    splitLines (unlines lines) = lines ++ [""] := by
  induction lines with
  | nil => rfl
  | cons line rest ih =>
    obtain ⟨hline, hrest⟩ := List.forall_mem_cons.mp h
    rw [splitLines_unlines_cons, splitLines_of_oneLine hline, ih hrest]
    rfl

theorem length_lt_splitLines_unlines (lines : List String) :
    lines.length < (splitLines (unlines lines)).length := by
  induction lines with
  | nil => decide
  | cons line rest ih =>
    rw [splitLines_unlines_cons, List.length_append, length_splitLines, List.length_cons]
    omega

/-- A line break within a line makes one piece too many. -/
theorem oneLine_of_length {lines : List String}
    (h : (splitLines (unlines lines)).length = lines.length + 1) :
    ∀ line ∈ lines, OneLine line := by
  induction lines with
  | nil => exact fun _ hmem => absurd hmem List.not_mem_nil
  | cons line rest ih =>
    have hrest := length_lt_splitLines_unlines rest
    rw [splitLines_unlines_cons, List.length_append, length_splitLines, List.length_cons] at h
    have hcount : line.toList.count '\n' = 0 := by omega
    have hlength : (splitLines (unlines rest)).length = rest.length + 1 := by omega
    exact List.forall_mem_cons.mpr ⟨List.count_eq_zero.mp hcount, ih hlength⟩

theorem toList_unlines_concat (front : List String) (last : String) :
    (unlines (front ++ [last])).toList = (unlines front).toList ++ last.toList ++ ['\n'] := by
  simp [unlines, String.toList_join]

/-- When the last line is not empty, one line break ends the text and not two. -/
theorem ending_unlines {lines : List String} {last : String} (hlast : lines.getLast? = some last)
    (hne : last ≠ "") (h : OneLine last) :
    ∃ body : List Char, (unlines lines).toList = body ++ ['\n'] ∧ body.getLast? ≠ some '\n' := by
  obtain ⟨front, rfl⟩ := List.getLast?_eq_some_iff.mp hlast
  refine ⟨_, toList_unlines_concat front last, fun hbreak => h ?_⟩
  have hchars : last.toList ≠ [] := fun hnil => hne (String.toList_eq_nil_iff.mp hnil)
  rw [List.getLast?_append_of_ne_nil _ hchars] at hbreak
  exact List.mem_of_getLast? hbreak

namespace Iseql

/-! ### The layout -/

/-- The line is the one of the given interval, or of a relation that begins there. -/
def StartsAt (id line : String) : Prop := ("@" ++ id).toList <+: line.toList

/-- The layout of a text about the model. -/
structure IsLaidOut (m : ResolvedModel) (text : String) : Prop where
  pieces : ∃ ids intervalLines relationLines : List String,
    splitLines text =
      ["# " ++ headerName m,
        "# intervals: " ++ Nat.repr m.intervals.length ++ ", relations: " ++
          Nat.repr (selectedRelations m).length,
        "", "INTERVALS"] ++ intervalLines ++ ["", "RELATIONS"] ++ relationLines ++ [""] ∧
    ids.Perm (m.intervals.map (·.id)) ∧ ids.Pairwise (· < ·) ∧
    List.Forall₂ StartsAt ids intervalLines ∧
    List.Forall₂ StartsAt ((selectedRelations m).map (·.left)) relationLines
  /-- The text ends with one line break and not with two. -/
  ending : ∃ body : List Char, text.toList = body ++ ['\n'] ∧ body.getLast? ≠ some '\n'

/-- The names that are written as they come have no line break. -/
structure PlainNames (m : ResolvedModel) : Prop where
  header : OneLine (headerName m)
  intervals : ∀ i ∈ m.intervals, OneLine i.id ∧ OneLine i.predicate.name
  operators : ∀ r ∈ selectedRelations m, OneLine r.operator

/-! ### When a text has it -/

/-- The intervals have distinct ids, and every relation stands between two of them. -/
structure Connected (m : ResolvedModel) : Prop where
  distinct : (m.intervals.map (·.id)).Nodup
  left : ∀ r ∈ m.relations, r.left ∈ m.intervals.map (·.id)
  right : ∀ r ∈ m.relations, r.right ∈ m.intervals.map (·.id)

variable {m : ResolvedModel} {c : Catalog}

theorem mem_relations_of_selected {r : Relation TypedParams} (h : r ∈ selectedRelations m) :
    r ∈ m.relations := by
  unfold selectedRelations at h
  dsimp only at h
  split at h
  · exact (mem_sortOn Relation.id).mp h
  · obtain ⟨id, -, hfind⟩ := List.mem_filterMap.mp h
    exact List.mem_of_find?_eq_some hfind

theorem PlainNames.of_mem (h : PlainNames m) {id : String} (hid : id ∈ m.intervals.map (·.id)) :
    OneLine id := by
  obtain ⟨i, hi, rfl⟩ := List.mem_map.mp hid
  exact (h.intervals i hi).1

/-- The lines of the frame: neither of an interval nor of a relation. -/
theorem oneLine_counts (n k : Nat) :
    OneLine ("# intervals: " ++ Nat.repr n ++ ", relations: " ++ Nat.repr k) := by
  simp only [oneLine_append]
  exact ⟨⟨⟨by decide, oneLine_natRepr n⟩, by decide⟩, oneLine_natRepr k⟩

/-- The lines are whole exactly when the names in them are. -/
theorem forall_oneLine_lines (hm : Connected m) :
    (∀ line ∈ lines m c, OneLine line) ↔ PlainNames m := by
  have hcounts := oneLine_counts m.intervals.length (selectedRelations m).length
  have hframe : OneLine "" ∧ OneLine "INTERVALS" ∧ OneLine "RELATIONS" ∧ OneLine "# " := by decide
  obtain ⟨hempty, hintervals, hrelations, hhash⟩ := hframe
  constructor
  · intro h
    refine ⟨?_, fun i hi => ?_, fun r hr => ?_⟩
    · have hheader := h ("# " ++ headerName m) (by simp [lines])
      exact ((oneLine_append _ _).mp hheader).2
    · exact (oneLine_intervalLine i).mp (h (intervalLine i) (by simp [lines]; grind))
    · exact ((oneLine_relationLine m c r).mp (h (relationLine m c r) (by simp [lines]; grind))).2.1
  · intro h line hline
    simp only [lines, List.mem_append, List.mem_cons, List.not_mem_nil, or_false] at hline
    rcases hline with (((rfl | rfl | rfl | rfl) | hline) | rfl | rfl) | hline
    · exact (oneLine_append _ _).mpr ⟨hhash, h.header⟩
    · exact hcounts
    · exact hempty
    · exact hintervals
    · obtain ⟨i, hi, rfl⟩ := List.mem_map.mp hline
      exact (oneLine_intervalLine i).mpr (h.intervals i ((mem_sortOn Interval.id).mp hi))
    · exact hempty
    · exact hrelations
    · obtain ⟨r, hr, rfl⟩ := List.mem_map.mp hline
      have hmem := mem_relations_of_selected hr
      exact (oneLine_relationLine m c r).mpr
        ⟨h.of_mem (hm.left r hmem), h.operators r hr, h.of_mem (hm.right r hmem)⟩

/-! ### Layout -/

theorem text_eq_unlines : text m c = unlines (lines m c) := rfl

theorem StartsAt.ne_empty {id line : String} (h : StartsAt id line) : line ≠ "" := by
  intro hempty
  subst hempty
  have hnil := List.prefix_nil.mp h
  simp at hnil

theorem startsAt_intervalLine (i : Interval) : StartsAt i.id (intervalLine i) := by
  rw [StartsAt, intervalLine, String.append_assoc, String.toList_append (s := "@" ++ i.id)]
  exact List.prefix_append _ _

theorem startsAt_relationLine (r : Relation TypedParams) :
    StartsAt r.left (relationLine m c r) := by
  simp only [StartsAt, relationLine, String.append_assoc, String.toList_append]
  exact ⟨_, rfl⟩

theorem pairwise_lt_ids (hm : Connected m) :
    ((sortOn Interval.id m.intervals).map (·.id)).Pairwise (· < ·) := by
  rw [List.pairwise_map]
  exact pairwise_lt_sortOn Interval.id hm.distinct

theorem exists_last_line : ∃ last, (lines m c).getLast? = some last ∧ last ≠ "" := by
  rcases List.eq_nil_or_concat (selectedRelations m) with hnil | ⟨front, r, hconcat⟩
  · refine ⟨"RELATIONS", ?_, by decide⟩
    simp only [lines, hnil, List.map_nil, List.append_nil, List.getLast?_append]
    rfl
  · refine ⟨relationLine m c r, ?_, (startsAt_relationLine r).ne_empty⟩
    simp only [lines, hconcat, List.concat_eq_append, List.map_append, List.getLast?_append]
    rfl

theorem ending_text (h : ∀ line ∈ lines m c, OneLine line) :
    ∃ body : List Char, (text m c).toList = body ++ ['\n'] ∧ body.getLast? ≠ some '\n' := by
  obtain ⟨last, hlast, hne⟩ := exists_last_line (m := m) (c := c)
  exact ending_unlines hlast hne (h last (List.mem_of_getLast? hlast))

/-- **When a text is laid out**: exactly when the names that are written as they come have no
line break. -/
theorem isLaidOut_iff (hm : Connected m) : IsLaidOut m (text m c) ↔ PlainNames m := by
  constructor
  · intro h
    obtain ⟨⟨ids, intervalLines, relationLines, hpieces, hperm, -, hintervals, hrelations⟩, -⟩ := h
    refine (forall_oneLine_lines (c := c) hm).mp (oneLine_of_length ?_)
    have hids := hperm.length_eq.symm.trans hintervals.length_eq
    have hselected := hrelations.length_eq
    rw [List.length_map] at hids hselected
    rw [← text_eq_unlines, hpieces]
    simp only [lines, List.length_append, List.length_map, length_sortOn, hids, hselected,
      List.length_cons, List.length_nil]
  · intro h
    have hlines := (forall_oneLine_lines (c := c) hm).mpr h
    refine ⟨⟨(sortOn Interval.id m.intervals).map (·.id),
      (sortOn Interval.id m.intervals).map intervalLine,
      (selectedRelations m).map (relationLine m c), splitLines_unlines hlines,
      (sortOn_perm Interval.id m.intervals).map _, pairwise_lt_ids hm, ?_, ?_⟩,
      ending_text hlines⟩
    · rw [List.forall₂_map_left_iff, List.forall₂_map_right_iff, List.forall₂_same]
      exact fun i _ => startsAt_intervalLine i
    · rw [List.forall₂_map_left_iff, List.forall₂_map_right_iff, List.forall₂_same]
      exact fun r _ => startsAt_relationLine r

end Iseql
end EventPattern
