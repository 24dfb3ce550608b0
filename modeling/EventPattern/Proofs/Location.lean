import EventPattern.Issue
import Mathlib.Data.List.Basic

/-! Paths that lead further on.

A path goes on behind another one with a key or with an index (`Beneath`), which is how issues
are known to lie within a scope (`Issue.isWithin_iff`). Nothing lies beneath two items of one
array (`eq_of_beneath_indexText`). It is not the same with the keys of an object, since a key may
have dots and brackets of its own; but it is so for keys that have none
(`eq_of_beneath_keyText`). -/
namespace EventPattern

/-- A text without the character that ends it is told by what it starts. -/
theorem eq_of_ended {front other : List Char} {stop : Char} (hfront : stop ∉ front)
    (hother : stop ∉ other) {a b : List Char} (h : front ++ stop :: a = other ++ stop :: b) :
    front = other := by
  have htake {front : List Char} (hfront : stop ∉ front) (a : List Char) :
      (front ++ stop :: a).takeWhile (· != stop) = front := by
    have hpass : ∀ x ∈ front, (x != stop) = true := fun x hx =>
      bne_iff_ne.mpr fun hstop => hfront (hstop ▸ hx)
    rw [List.takeWhile_append_of_pos hpass]
    simp
  rw [← htake hfront a, h, htake hother b]

namespace Location

variable {base scope path : String}

/-! ### What is written of a place -/

theorem bracket_notMem_repr (i : Nat) : ']' ∉ (Nat.repr i).toList := by
  rw [Nat.toList_repr]
  intro h
  exact absurd (Nat.isDigit_of_mem_toDigits (by decide) (by decide) h) (by decide)

theorem eq_of_toList_repr {i j : Nat} (h : (Nat.repr i).toList = (Nat.repr j).toList) : i = j := by
  simpa [Nat.toList_repr] using congrArg (Nat.ofDigitChars 10 · 0) h

theorem toList_keyText (base name : String) :
    (keyText base name).toList = base.toList ++ '.' :: name.toList := by
  simp [keyText, String.toList_append]

theorem toList_indexText (base : String) (i : Nat) :
    (indexText base i).toList = base.toList ++ '[' :: ((Nat.repr i).toList ++ [']']) := by
  simp [indexText, String.toList_append]

theorem keyText_left_inj {other name : String} (h : keyText base name = keyText other name) :
    base = other := by
  have hlist := congrArg String.toList h
  rw [toList_keyText, toList_keyText] at hlist
  exact String.toList_inj.mp (List.append_cancel_right hlist)

theorem keyText_right_inj {name other : String} (h : keyText base name = keyText base other) :
    name = other := by
  have hlist := congrArg String.toList h
  rw [toList_keyText, toList_keyText] at hlist
  exact String.toList_inj.mp (List.cons.inj (List.append_cancel_left hlist)).2

/-! ### Beneath a path -/

/-- What may follow a path: nothing, a key or an index. -/
def IsTail (rest : List Char) : Prop := ∀ c ∈ rest.head?, c = '.' ∨ c = '['

theorem IsTail.append {rest more : List Char} (hrest : IsTail rest) (hmore : IsTail more) :
    IsTail (rest ++ more) := by
  cases rest with
  | nil => exact hmore
  | cons c rest => exact hrest

/-- The path leads to the same place as `scope`, or on from there. -/
def Beneath (scope path : String) : Prop :=
  ∃ rest, IsTail rest ∧ path.toList = scope.toList ++ rest

theorem Beneath.refl (scope : String) : Beneath scope scope :=
  ⟨[], nofun, (List.append_nil _).symm⟩

theorem Beneath.trans {inner : String} (houter : Beneath scope inner)
    (hinner : Beneath inner path) : Beneath scope path := by
  obtain ⟨rest, hrest, hscope⟩ := houter
  obtain ⟨more, hmore, hpath⟩ := hinner
  exact ⟨rest ++ more, hrest.append hmore, by rw [hpath, hscope, List.append_assoc]⟩

theorem beneath_keyText (base name : String) : Beneath base (keyText base name) :=
  ⟨'.' :: name.toList, by simp [IsTail], toList_keyText base name⟩

theorem beneath_indexText (base : String) (i : Nat) : Beneath base (indexText base i) :=
  ⟨_, by simp [IsTail], toList_indexText base i⟩

theorem Beneath.length_le (h : Beneath scope path) : scope.toList.length ≤ path.toList.length := by
  obtain ⟨rest, -, hpath⟩ := h
  rw [hpath, List.length_append]
  exact Nat.le_add_right _ _

/-- No path leads back to what it started from. -/
theorem Beneath.ne_of_key {name : String} (h : Beneath (keyText base name) path) :
    path ≠ base := by
  intro hsame
  have hlength := h.length_le
  rw [hsame, toList_keyText, List.length_append, List.length_cons] at hlength
  omega

theorem Beneath.ne_of_index {i : Nat} (h : Beneath (indexText base i) path) : path ≠ base := by
  intro hsame
  have hlength := h.length_le
  rw [hsame, toList_indexText, List.length_append, List.length_cons] at hlength
  omega

/-- Items of an array are told apart by their indices, whatever comes after. -/
theorem eq_of_beneath_indexText {i j : Nat} (hi : Beneath (indexText base i) path)
    (hj : Beneath (indexText base j) path) : i = j := by
  obtain ⟨rest, -, hrest⟩ := hi
  obtain ⟨more, -, hmore⟩ := hj
  rw [hrest, toList_indexText, toList_indexText] at hmore
  simp only [List.append_assoc, List.append_cancel_left_eq, List.cons_append, List.cons.injEq,
    true_and, List.nil_append] at hmore
  exact eq_of_toList_repr (eq_of_ended (bracket_notMem_repr i) (bracket_notMem_repr j) hmore)

theorem indexText_right_inj {i j : Nat} (h : indexText base i = indexText base j) : i = j := by
  refine eq_of_beneath_indexText (.refl (indexText base i)) ?_
  rw [h]
  exact .refl _

/-- A key without the characters that start what follows a path. -/
def IsPlain (key : String) : Prop := ∀ c ∈ key.toList, c ≠ '.' ∧ c ≠ '['

instance (key : String) : Decidable (IsPlain key) :=
  List.decidableBAll (fun c => c ≠ '.' ∧ c ≠ '[') key.toList

/-- Such keys are told apart as well. -/
theorem eq_of_beneath_keyText {key other : String} (hkey : IsPlain key) (hother : IsPlain other)
    (h : Beneath (keyText base key) path) (h' : Beneath (keyText base other) path) :
    key = other := by
  obtain ⟨rest, htail, hrest⟩ := h
  obtain ⟨more, htail', hmore⟩ := h'
  -- A plain key reaches to the first character that may follow a path.
  have htake {key : String} {rest : List Char} (hkey : IsPlain key) (htail : IsTail rest) :
      (key.toList ++ rest).takeWhile (fun c => c ≠ '.' ∧ c ≠ '[') = key.toList := by
    rw [List.takeWhile_append_of_pos fun c hc => decide_eq_true (hkey c hc)]
    cases rest with
    | nil => simp
    | cons c rest =>
      have hstop : ¬(c ≠ '.' ∧ c ≠ '[') := fun hne =>
        (htail c rfl).elim hne.1 hne.2
      rw [List.takeWhile_cons_of_neg (by simpa using hstop), List.append_nil]
  rw [hrest, toList_keyText, toList_keyText] at hmore
  simp only [List.append_assoc, List.append_cancel_left_eq, List.cons_append, List.cons.injEq,
    true_and] at hmore
  rw [← String.toList_inj, ← htake hkey htail, hmore, htake hother htail']

end Location

/-- An issue is within a scope when its path leads there or beneath. -/
theorem Issue.isWithin_iff (issue : Issue) (scope : String) :
    issue.isWithin scope = true ↔ Location.Beneath scope issue.path := by
  unfold isWithin Location.Beneath Location.IsTail
  cases hfront : scope.toList.isPrefixOf? issue.path.toList with
  | none =>
    refine iff_of_false Bool.false_ne_true fun ⟨rest, _, hpath⟩ => ?_
    rw [List.isPrefixOf?_eq_some_iff_append_eq.mpr hpath.symm] at hfront
    cases hfront
  | some rest =>
    have hpath := List.isPrefixOf?_eq_some_iff_append_eq.mp hfront
    have hrest {more : List Char} : issue.path.toList = scope.toList ++ more ↔ rest = more := by
      rw [← hpath, List.append_cancel_left_eq]
    simp only [hrest, exists_eq_right']
    cases rest <;> simp

end EventPattern
