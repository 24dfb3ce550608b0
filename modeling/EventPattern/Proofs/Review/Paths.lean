import EventPattern.Proofs.Location
import EventPattern.Proofs.Sorting
import EventPattern.Review

/-! Paths into the relations of a document.

The two shapes of documents keep their relations at different places and name the operator of
a relation differently. So the paths into them differ as texts, but they are in the same order
(`sameOrder_paths`): what stands before the index of a relation is the same for all of them,
the bracket behind it ends it, and the name of the operator starts with the same letter. -/
namespace EventPattern

/-! ### Comparing texts -/

/-- Two texts compare as two others do. -/
structure SameOrder (a b c d : List Char) : Prop where
  lt : a < b ↔ c < d
  gt : b < a ↔ d < c

namespace SameOrder

variable {a b c d : List Char}

theorem refl (a b : List Char) : SameOrder a b a b := ⟨.rfl, .rfl⟩

theorem same (a c : List Char) : SameOrder a a c c :=
  ⟨iff_of_false (List.lt_irrefl a) (List.lt_irrefl c),
    iff_of_false (List.lt_irrefl a) (List.lt_irrefl c)⟩

theorem swap (h : SameOrder a b c d) : SameOrder b a d c := ⟨h.gt, h.lt⟩

theorem nil_cons (x y : Char) (c d : List Char) : SameOrder [] (x :: c) [] (y :: d) :=
  ⟨iff_of_true (List.nil_lt_cons x c) (List.nil_lt_cons y d),
    iff_of_false (List.not_lt_nil _) (List.not_lt_nil _)⟩

/-- The same front on both sides does not matter. -/
theorem cons (h : SameOrder a b c d) (x y : Char) :
    SameOrder (x :: a) (x :: b) (y :: c) (y :: d) := by
  constructor
  · rw [List.cons_lt_cons_self, List.cons_lt_cons_self, h.lt]
  · rw [List.cons_lt_cons_self, List.cons_lt_cons_self, h.gt]

theorem append (h : SameOrder a b c d) (front other : List Char) :
    SameOrder (front ++ a) (front ++ b) (other ++ c) (other ++ d) := by
  have hlt {front a b : List Char} : front ++ a < front ++ b ↔ a < b := by
    induction front with
    | nil => rfl
    | cons x rest ih => rw [List.cons_append, List.cons_append, List.cons_lt_cons_self, ih]
  exact ⟨hlt.trans (h.lt.trans hlt.symm), hlt.trans (h.gt.trans hlt.symm)⟩

/-- Nothing matters behind characters that differ. -/
theorem of_ne {x y : Char} (h : x ≠ y) (a b c d : List Char) :
    SameOrder (x :: a) (y :: b) (x :: c) (y :: d) := by
  constructor
  · simp [List.cons_lt_cons_iff, h]
  · simp [List.cons_lt_cons_iff, h.symm]

theorem eq_iff (h : SameOrder a b c d) : a = b ↔ c = d := by
  have heq {x y : List Char} : x = y ↔ ¬ x < y ∧ ¬ y < x :=
    ⟨fun h => by subst h; exact ⟨List.lt_irrefl x, List.lt_irrefl x⟩,
      fun h => List.le_antisymm h.2 h.1⟩
  rw [heq, heq, h.lt, h.gt]

/-- Different texts that are ended by a character of which they have none. -/
theorem of_ended {front other : List Char} (hne : front ≠ other) {stop : Char}
    (hfront : stop ∉ front) (hother : stop ∉ other) (a b c d : List Char) :
    SameOrder (front ++ stop :: a) (other ++ stop :: b) (front ++ stop :: c)
      (other ++ stop :: d) := by
  induction front generalizing other with
  | nil =>
    cases other with
    | nil => exact absurd rfl hne
    | cons y rest => exact of_ne (List.ne_of_not_mem_cons hother) _ _ _ _
  | cons x rest ih =>
    cases other with
    | nil => exact of_ne (List.ne_of_not_mem_cons hfront).symm _ _ _ _
    | cons y more =>
      by_cases hxy : x = y
      · subst hxy
        exact (ih (fun h => hne (h ▸ rfl)) (List.not_mem_of_not_mem_cons hfront)
          (List.not_mem_of_not_mem_cons hother)).cons x x
      · exact of_ne hxy _ _ _ _

end SameOrder

/-! ### Parts of a relation -/

/-- What an issue may be about, in a relation. -/
inductive Relation.Part where
  | whole
  | operator
  | params
  | param (name : String)
  | reference (position : Nat)
deriving DecidableEq

namespace Relation.Part

/-- Where the part of a relation is, in a document of an origin. -/
def place (origin : Origin) (i : Nat) : Part → Location
  | whole => .index origin.relations i
  | operator => .key (.index origin.relations i) origin.operatorKey
  | params => .key (.index origin.relations i) "params"
  | param name => .key (.key (.index origin.relations i) "params") name
  | reference position => .index (.key (.index origin.relations i) "constraintIds") position

/-- What its path says behind the index of the relation. -/
def suffix (origin : Origin) : Part → String
  | whole => ""
  | operator => "." ++ origin.operatorKey
  | params => "." ++ "params"
  | param name => "." ++ "params" ++ "." ++ name
  | reference position => "." ++ "constraintIds" ++ "[" ++ Nat.repr position ++ "]"

variable {o o' : Origin}

theorem text_place (origin : Origin) (i : Nat) (part : Part) :
    (part.place origin i).text =
      Location.indexText origin.relations.text i ++ part.suffix origin := by
  cases part <;>
    simp only [place, suffix, Location.text, Location.keyText, Location.indexText,
      String.append_assoc, String.append_empty]

theorem suffix_eq {part : Part} (h : part ≠ operator) (o o' : Origin) :
    part.suffix o = part.suffix o' := by
  cases part <;> first
    | exact absurd rfl h
    | rfl

/-- The name of the operator starts with an `o`. -/
def NamesOperator (origin : Origin) : Prop := ∃ rest, origin.operatorKey.toList = 'o' :: rest

/-- No other part does. -/
theorem sameOrder_operator {part : Part} (h : part ≠ operator) (ho : NamesOperator o)
    (ho' : NamesOperator o') :
    SameOrder (operator.suffix o).toList (part.suffix o).toList (operator.suffix o').toList
      (part.suffix o').toList := by
  obtain ⟨rest, hrest⟩ := ho
  obtain ⟨rest', hrest'⟩ := ho'
  have hoperator : (operator.suffix o).toList = '.' :: 'o' :: rest := by
    rw [suffix, String.toList_append, hrest]
    rfl
  have hoperator' : (operator.suffix o').toList = '.' :: 'o' :: rest' := by
    rw [suffix, String.toList_append, hrest']
    rfl
  rw [hoperator, hoperator', suffix_eq h o' o]
  have hletter (x : Char) (more : List Char) (hx : 'o' ≠ x) :
      SameOrder ('.' :: 'o' :: rest) ('.' :: x :: more) ('.' :: 'o' :: rest') ('.' :: x :: more) :=
    (SameOrder.of_ne hx _ _ _ _).cons '.' '.'
  cases part with
  | operator => exact absurd rfl h
  | whole => exact (SameOrder.nil_cons _ _ _ _).swap
  | params =>
    rw [suffix, String.toList_append]
    exact hletter 'p' _ (by decide)
  | param name =>
    rw [suffix, String.toList_append, String.toList_append]
    exact hletter 'p' _ (by decide)
  | reference position =>
    rw [suffix, String.toList_append, String.toList_append, String.toList_append]
    exact hletter 'c' _ (by decide)

theorem sameOrder_suffix (ho : NamesOperator o) (ho' : NamesOperator o') (p q : Part) :
    SameOrder (p.suffix o).toList (q.suffix o).toList (p.suffix o').toList
      (q.suffix o').toList := by
  by_cases hp : p = operator
  · subst hp
    by_cases hq : q = operator
    · subst hq
      exact .same _ _
    · exact sameOrder_operator hq ho ho'
  · by_cases hq : q = operator
    · subst hq
      exact (sameOrder_operator hp ho ho').swap
    · rw [suffix_eq hp o' o, suffix_eq hq o' o]
      exact .refl _ _

/-- Every part of a relation is written beneath it. -/
theorem beneath_place (origin : Origin) (i : Nat) (part : Part) :
    Location.Beneath (Location.index origin.relations i).text (part.place origin i).text := by
  have hkey := Location.beneath_keyText (Location.index origin.relations i).text
  cases part with
  | whole => exact .refl _
  | operator => exact hkey origin.operatorKey
  | params => exact hkey "params"
  | param name => exact (hkey "params").trans (Location.beneath_keyText _ name)
  | reference position =>
    exact (hkey "constraintIds").trans (Location.beneath_indexText _ position)

theorem toList_place (origin : Origin) (i : Nat) (part : Part) :
    (part.place origin i).text.toList = (origin.relations.text ++ "[").toList ++
      ((Nat.repr i).toList ++ ']' :: (part.suffix origin).toList) := by
  rw [text_place, Location.indexText]
  simp [String.toList_append]

/-- Behind the index of a relation, its parts are told apart by what their paths say. -/
theorem suffix_inj (ho : NamesOperator o) {p q : Part} (h : p.suffix o = q.suffix o) : p = q := by
  obtain ⟨rest, hrest⟩ := ho
  cases p <;> cases q
  case param.param name other => rw [(String.append_right_inj _).mp h]
  case reference.reference i j =>
    have hindex := (String.append_right_inj _).mp ((String.append_left_inj _).mp h)
    rw [Location.eq_of_toList_repr (congrArg String.toList hindex)]
  -- Parts of two kinds differ in the first characters already.
  all_goals first
    | rfl
    | simp [suffix, ← String.toList_inj, hrest] at h

/-- Parts of relations are told apart by their paths. -/
theorem eq_of_text_place (ho : NamesOperator o) {i j : Nat} {p q : Part}
    (h : (p.place o i).text = (q.place o j).text) : i = j ∧ p = q := by
  have hindex : i = j := by
    refine Location.eq_of_beneath_indexText (p.beneath_place o i) ?_
    rw [h]
    exact q.beneath_place o j
  subst hindex
  rw [text_place, text_place] at h
  exact ⟨rfl, suffix_inj ho ((String.append_right_inj _).mp h)⟩
/-- **Paths are in the same order in either shape.** -/
theorem sameOrder_paths (ho : NamesOperator o) (ho' : NamesOperator o') (i j : Nat)
    (p q : Part) :
    SameOrder (p.place o i).text.toList (q.place o j).text.toList (p.place o' i).text.toList
      (q.place o' j).text.toList := by
  simp only [toList_place]
  refine SameOrder.append ?_ _ _
  -- In one relation the rest of the path decides. In two of them it does not come to that: no
  -- index is the start of another one with its bracket.
  by_cases hij : i = j
  · subst hij
    exact ((sameOrder_suffix ho ho' p q).cons _ _).append _ _
  · exact .of_ended (fun h => hij (Location.eq_of_toList_repr h)) (Location.bracket_notMem_repr i)
      (Location.bracket_notMem_repr j) _ _ _ _

end Relation.Part
end EventPattern
