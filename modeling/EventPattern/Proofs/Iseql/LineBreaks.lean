import EventPattern.Iseql.Text
import EventPattern.Proofs.Json.Quoting
import EventPattern.Proofs.Sorting

/-! What never breaks a line.

`OneLine` is a text without a line break. Everything that is quoted or computed is one: JSON
without blanks, numbers (`Layout.notMem_render` says so of every foreign character), values of
parameters, atoms. What is left are the texts that are written as they come, and of these the lines
of a text are made (`oneLine_intervalLine`, `oneLine_relationLine`). -/
namespace EventPattern

/-- The text has no line break in it. -/
def OneLine (text : String) : Prop := '\n' ∉ text.toList

instance (text : String) : Decidable (OneLine text) :=
  inferInstanceAs (Decidable ('\n' ∉ text.toList))

/-! ### Putting texts together -/

@[simp] theorem oneLine_append (a b : String) : OneLine (a ++ b) ↔ OneLine a ∧ OneLine b := by
  simp [OneLine, not_or]

@[simp] theorem oneLine_ofList (chars : List Char) :
    OneLine (String.ofList chars) ↔ '\n' ∉ chars := by
  rw [OneLine, String.toList_ofList]

theorem oneLine_intercalate {separator : String} {texts : List String}
    (hseparator : OneLine separator) (h : ∀ text ∈ texts, OneLine text) :
    OneLine (separator.intercalate texts) := by
  induction texts with
  | nil => simp [OneLine]
  | cons text rest ih =>
    have htext := h text (List.mem_cons_self ..)
    have hrest := ih fun other hother => h other (List.mem_cons_of_mem _ hother)
    cases rest with
    | nil =>
      rw [String.intercalate_singleton]
      exact htext
    | cons next rest =>
      rw [String.intercalate_cons_cons, oneLine_append, oneLine_append]
      exact ⟨⟨htext, hseparator⟩, hrest⟩

/-! ### Numbers -/

theorem notMem_toDigits {c : Char} (hc : ¬ c.isDigit) (n : Nat) : c ∉ Nat.toDigits 10 n :=
  fun h => hc (Nat.isDigit_of_mem_toDigits (by decide) (by decide) h)

theorem notMem_natRepr {c : Char} (hc : ¬ c.isDigit) (n : Nat) : c ∉ (Nat.repr n).toList := by
  rw [Nat.toList_repr]
  exact notMem_toDigits hc n

@[simp] theorem oneLine_natRepr (n : Nat) : OneLine (Nat.repr n) := notMem_natRepr (by decide) n

theorem oneLine_intRepr (i : Int) : OneLine (Int.repr i) := by
  cases i with
  | ofNat n => exact oneLine_natRepr n
  | negSucc n =>
    show OneLine ("-" ++ Nat.repr (n + 1))
    rw [oneLine_append]
    exact ⟨by decide, oneLine_natRepr _⟩

namespace Layout

/-- The character has no place in a number. -/
structure IsForeign (c : Char) : Prop where
  digit : ¬ c.isDigit
  mark : c ∉ ['.', '-', '+', 'e']

section Foreign
variable {c : Char} (hc : IsForeign c)
include hc

theorem IsForeign.ne_mark {mark : Char} (hmark : mark ∈ ['.', '-', '+', 'e']) : c ≠ mark :=
  fun h => hc.mark (h ▸ hmark)

theorem notMem_zeros (n : Nat) : c ∉ zeros n := fun h =>
  hc.digit (List.eq_of_mem_replicate h ▸ by decide)

theorem notMem_positionalText (l : Layout) {digits : List Char} (h : c ∉ digits)
    (point : Int) : c ∉ l.positionalText digits point := by
  unfold positionalText
  have htake (n : Nat) : c ∉ digits.take n := fun hmem => h (List.mem_of_mem_take hmem)
  have hdrop (n : Nat) : c ∉ digits.drop n := fun hmem => h (List.mem_of_mem_drop hmem)
  have hzeros := notMem_zeros hc
  have hzero : c ≠ '0' := fun h => hc.digit (h ▸ by decide)
  have hpoint : c ≠ '.' := hc.ne_mark (by decide)
  split
  · simp [h, hzeros, hzero, hpoint]
  · split
    · cases l.pointZero <;> simp [h, hzeros, hzero, hpoint]
    · simp [htake, hdrop, hpoint]

theorem notMem_scientificText {digits : List Char} (h : c ∉ digits) (exponent : Int) :
    c ∉ scientificText digits exponent := by
  unfold scientificText
  have htake : c ∉ digits.take 1 := fun hmem => h (List.mem_of_mem_take hmem)
  have htail : c ∉ digits.tail := fun hmem => h (List.mem_of_mem_tail hmem)
  have hexponent := notMem_toDigits hc.digit exponent.natAbs
  have hpoint : c ≠ '.' := hc.ne_mark (by decide)
  have hletter : c ≠ 'e' := hc.ne_mark (by decide)
  have hsign : c ≠ if exponent < 0 then '-' else '+' := by
    split <;> exact hc.ne_mark (by decide)
  split <;> simp [htake, htail, hexponent, hsign, hpoint, hletter]

theorem notMem_render (l : Layout) (hzero : c ∉ l.zero.toList) (x : Binary64) :
    c ∉ (l.render x).toList := by
  unfold render
  split
  · exact hzero
  · have hdigits : c ∉ (Nat.repr (x.shortest l.tie).digits).toList := notMem_natRepr hc.digit _
    have hmagnitude (isPositional : Bool) (point : Int) :
        c ∉ if isPositional then
            l.positionalText (Nat.repr (x.shortest l.tie).digits).toList point
          else scientificText (Nat.repr (x.shortest l.tie).digits).toList (point - 1) := by
      cases isPositional
      · exact notMem_scientificText hc hdigits _
      · exact notMem_positionalText hc l hdigits _
    rw [String.toList_ofList]
    split
    · exact List.not_mem_cons_of_ne_of_not_mem (hc.ne_mark (by decide)) (hmagnitude _ _)
    · exact hmagnitude _ _

end Foreign

theorem oneLine_render (l : Layout) (hzero : OneLine l.zero) (x : Binary64) :
    OneLine (l.render x) := notMem_render ⟨by decide, by decide⟩ l hzero x

theorem oneLine_plain (x : Binary64) : OneLine (plain.render x) :=
  plain.oneLine_render (by decide) x

theorem oneLine_json (x : Binary64) : OneLine (json.render x) := json.oneLine_render (by decide) x

end Layout

/-! ### JSON without blanks -/

theorem lowerHex_ne_break (n : Nat) : lowerHex n ≠ '\n' :=
  Json.forall_lowerHex (p := (· ≠ '\n')) (by decide) n

theorem break_notMem_escapeChar (c : Char) : '\n' ∉ escapeChar c := by
  unfold escapeChar
  split
  all_goals try decide
  · next hbreak _ _ _ _ =>
    split
    · simp [(lowerHex_ne_break _).symm]
    · simp [Ne.symm hbreak]

@[simp] theorem oneLine_quote (text : String) : OneLine (quote text) := by
  rw [quote, oneLine_ofList]
  simp [break_notMem_escapeChar]

theorem oneLine_numberText (n : Number) : OneLine n.text := by
  cases n with
  | int i _ => exact oneLine_intRepr i
  | real x => exact Layout.oneLine_json x
  | negativeZero => exact (by decide : OneLine "-0.0")

namespace Json

mutual

theorem oneLine_compact (json : Json) : OneLine json.compact := by
  cases json with
  | null => exact (by decide : OneLine "null")
  | bool b => cases b <;> exact (by decide)
  | number n => exact oneLine_numberText n
  | string text => exact oneLine_quote text
  | array items =>
    rw [compact, oneLine_append, oneLine_append]
    exact ⟨⟨by decide, oneLine_intercalate (by decide) (oneLine_compactItems items)⟩, by decide⟩
  | object fields =>
    rw [compact, oneLine_append, oneLine_append]
    exact ⟨⟨by decide, oneLine_intercalate (by decide) (oneLine_compactFields fields)⟩, by decide⟩

theorem oneLine_compactItems (items : List Json) : ∀ text ∈ compactItems items, OneLine text := by
  cases items with
  | nil => exact fun _ h => absurd h List.not_mem_nil
  | cons item rest =>
    rw [compactItems, List.forall_mem_cons]
    exact ⟨oneLine_compact item, oneLine_compactItems rest⟩

theorem oneLine_compactFields (fields : List (String × Json)) :
    ∀ text ∈ compactFields fields, OneLine text := by
  cases fields with
  | nil => exact fun _ h => absurd h List.not_mem_nil
  | cons field rest =>
    obtain ⟨key, value⟩ := field
    rw [compactFields, List.forall_mem_cons, oneLine_append, oneLine_append]
    exact ⟨⟨⟨oneLine_quote key, by decide⟩, oneLine_compact value⟩, oneLine_compactFields rest⟩

end

end Json

/-! ### Values and atoms -/

theorem ParamKind.oneLine_text (kind : ParamKind) (value : kind.Value) :
    OneLine (kind.text value) := by
  cases kind with
  | comparator => cases value <;> exact (by decide)
  | threshold =>
    cases value with
    | finite bound _ => exact Layout.oneLine_plain bound
    | infinite => exact (by decide : OneLine "∞")
  | amount => exact Layout.oneLine_plain value

namespace Iseql

theorem oneLine_atom (text : String) : OneLine (atom text) := by
  unfold atom
  split
  · next hbare =>
    have htail : ∀ c, isTail c → c ≠ '\n' := by
      intro c h hbreak
      subst hbreak
      exact absurd h (by decide)
    unfold OneLine
    cases hchars : text.toList with
    | nil => exact List.not_mem_nil
    | cons first rest =>
      rw [hchars] at hbare
      obtain ⟨hfirst, hrest⟩ := Bool.and_eq_true_iff.mp hbare
      intro hmem
      rcases List.mem_cons.mp hmem with heq | hmem
      · have htailFirst : isTail first := by simp [isTail, hfirst]
        exact htail first htailFirst heq.symm
      · exact htail _ (List.all_eq_true.mp hrest _ hmem) rfl
  · exact oneLine_quote text

/-- A call is on one line when the name of its predicate is. -/
theorem oneLine_call (p : Predicate) : OneLine (call p) ↔ OneLine p.name := by
  have hargs : OneLine (", ".intercalate (p.args.map atom)) := by
    refine oneLine_intercalate (by decide) fun text htext => ?_
    obtain ⟨arg, -, rfl⟩ := List.mem_map.mp htext
    exact oneLine_atom arg
  have hopen : OneLine "(" := by decide
  have hclose : OneLine ")" := by decide
  simp [call, hargs, hopen, hclose]

theorem oneLine_group {left right : String} {texts : List String} (hleft : OneLine left)
    (hright : OneLine right) (h : ∀ text ∈ texts, OneLine text) :
    OneLine (group left right texts) := by
  unfold group
  split
  · exact (by decide : OneLine "")
  · simp only [oneLine_append]
    exact ⟨⟨⟨by decide, hleft⟩, oneLine_intercalate (by decide) h⟩, hright⟩

theorem oneLine_paramTexts (params defaults : TypedParams) :
    ∀ text ∈ paramTexts params defaults, OneLine text := by
  intro text htext
  obtain ⟨key, -, hkey⟩ := List.mem_filterMap.mp htext
  obtain ⟨value, -, hvalue⟩ := Option.bind_eq_some_iff.mp hkey
  split at hvalue
  · cases hvalue
  · cases hvalue
    simp only [oneLine_append]
    exact ⟨⟨by cases key <;> decide, by decide⟩, key.kind.oneLine_text value⟩

theorem oneLine_extraText {m : ResolvedModel} {r : Relation TypedParams} {e : Extra}
    (h : e ∈ extras m r) : OneLine e.text := by
  obtain ⟨id, -, hextra⟩ := List.mem_filterMap.mp ((sortBy_perm _ _).mem_iff.mp h)
  obtain ⟨c, -, hc⟩ := Option.bind_eq_some_iff.mp hextra
  obtain ⟨⟨rank, label⟩, hlabel, rfl⟩ := Option.map_eq_some_iff.mp hc
  have hlabelLine : OneLine label := by
    unfold extraLabel? at hlabel
    split at hlabel <;> cases hlabel <;> decide
  simp only [Extra.text, oneLine_append]
  exact ⟨⟨hlabelLine, by decide⟩, Json.oneLine_compact _⟩

/-! ### Lines -/

theorem oneLine_intervalLine (i : Interval) :
    OneLine (intervalLine i) ↔ OneLine i.id ∧ OneLine i.predicate.name := by
  have hat : OneLine "@" := by decide
  have hcolon : OneLine ": " := by decide
  simp [intervalLine, oneLine_call, hat, hcolon]

theorem oneLine_relationLine (m : ResolvedModel) (c : Catalog) (r : Relation TypedParams) :
    OneLine (relationLine m c r) ↔ OneLine r.left ∧ OneLine r.operator ∧ OneLine r.right := by
  have hparams := oneLine_group (by decide : OneLine "(") (by decide : OneLine ")")
    (oneLine_paramTexts r.params (defaultsFor c r.operator))
  have hextras : OneLine (group "[" "]" ((extras m r).map Extra.text)) := by
    refine oneLine_group (by decide) (by decide) fun text htext => ?_
    obtain ⟨e, he, rfl⟩ := List.mem_map.mp htext
    exact oneLine_extraText he
  have hat : OneLine "@" := by decide
  have hblank : OneLine " " := by decide
  have hblankAt : OneLine " @" := by decide
  simp [relationLine, hparams, hextras, hat, hblank, hblankAt, and_assoc]

end Iseql
end EventPattern
