import EventPattern.Proofs.Catalog.WellFormed
import EventPattern.Proofs.Iseql.LineBreaks
import EventPattern.Proofs.Number.PlainText
import EventPattern.Proofs.Resolution.Layers
import Mathlib.Data.List.TakeDrop

/-! What a reader gets back from the parameters that are shown.

A relation shows only what differs from the defaults of its operator. `readGroup?` reads such a
group: it takes it apart at the commas, each entry at its colon, and puts the values over the
defaults. As no entry has a comma or a colon too many, it finds exactly the parameters that were
shown (`groupEntries_group`), and what it gets are the parameters that were written over the
defaults (`readGroup?_paramGroup`). -/
namespace EventPattern

/-! ### Values -/

namespace ParamKind

/-- Reads a value as it is shown. -/
def ofText? : (kind : ParamKind) → String → Option kind.Value
  | comparator, text => Comparator.ofText? text
  | threshold, text =>
    if text = Threshold.infinitySign then some .infinite
    else (Number.ofText? text).bind fun n => Threshold.ofNumber? n.value
  | amount, text => (Number.ofText? text).map Number.value

/-- **A value that is shown is read back.** -/
theorem ofText?_text (kind : ParamKind) (value : kind.Value) :
    kind.ofText? (kind.text value) = some value := by
  cases kind with
  | comparator => exact Comparator.ofText?_symbol value
  | amount => exact Number.ofText?_render value
  | threshold =>
    cases value with
    | infinite => rfl
    | finite bound nonneg =>
      obtain ⟨n, hn, hvalue⟩ := Option.map_eq_some_iff.mp (Number.ofText?_render bound)
      have hsign : Layout.plain.render bound ≠ Threshold.infinitySign := by
        intro hsign
        have hnone : Number.ofText? Threshold.infinitySign = none := by decide
        rw [hsign, hnone] at hn
        cases hn
      show (if Layout.plain.render bound = _ then _
        else (Number.ofText? (Layout.plain.render bound)).bind _) = _
      rw [if_neg hsign, hn, Option.bind_some, hvalue, Threshold.ofNumber?, dif_pos nonneg]

theorem comma_notMem_text (kind : ParamKind) (value : kind.Value) :
    ',' ∉ (kind.text value).toList := by
  have hrender (x : Binary64) : ',' ∉ (Layout.plain.render x).toList :=
    Layout.notMem_render ⟨by decide, by decide⟩ _ (by decide) x
  cases kind with
  | comparator => cases value <;> decide
  | amount => exact hrender value
  | threshold =>
    cases value with
    | infinite => exact (by decide : ',' ∉ "∞".toList)
    | finite bound _ => exact hrender bound

end ParamKind

namespace Iseql

/-! ### Entries -/

/-- A parameter with its value. -/
abbrev Entry := (key : ParamKey) × key.Value

def entryText (entry : Entry) : String :=
  entry.1.greek ++ ":" ++ entry.1.kind.text entry.2

/-- Reads the key before the first colon and the value behind it. -/
def entryOf? (chars : List Char) : Option Entry :=
  let (name, value) := chars.span (· ≠ ':')
  (ParamKey.ofName? (.ofList name)).bind fun (key, _) =>
    (key.kind.ofText? (.ofList (value.drop 1))).map (⟨key, ·⟩)

theorem toList_entryText (entry : Entry) :
    (entryText entry).toList =
      entry.1.greek.toList ++ ':' :: (entry.1.kind.text entry.2).toList := by
  simp [entryText]

theorem entryOf?_entryText (entry : Entry) :
    entryOf? (entryText entry).toList = some entry := by
  obtain ⟨key, value⟩ := entry
  have hgreek : ∀ c ∈ key.greek.toList, decide (c ≠ ':') = true :=
    List.all_eq_true.mp (by cases key <;> decide)
  have hspan : (entryText ⟨key, value⟩).toList.span (· ≠ ':') =
      (key.greek.toList, ':' :: (key.kind.text value).toList) := by
    rw [toList_entryText, List.span_eq_takeWhile_dropWhile, List.takeWhile_append_of_pos hgreek,
      List.dropWhile_append_of_pos hgreek, List.takeWhile_cons_of_neg (by simp),
      List.dropWhile_cons_of_neg (by simp), List.append_nil]
  simp only [entryOf?, hspan, String.ofList_toList, ParamKey.ofName?_greek, Option.bind_some,
    List.drop_succ_cons, List.drop_zero, ParamKind.ofText?_text, Option.map_some]

/-! ### Groups -/

/-- The entries between the brackets of a group. -/
def groupEntries (text : String) : List (List Char) :=
  match (text.toList.drop 2).dropLast with
  | [] => []
  | chars => (chars.splitOn ',').map (·.dropWhile (· = ' '))

/-- The text can be told from the ones around it. -/
structure IsEntryText (text : String) : Prop where
  comma : ',' ∉ text.toList
  first : ∃ c rest, text.toList = c :: rest ∧ c ≠ ' '

theorem isEntryText_entryText (entry : Entry) : IsEntryText (entryText entry) where
  comma := by
    rw [toList_entryText]
    have hgreek : ',' ∉ entry.1.greek.toList := by cases entry.1 <;> decide
    simp [hgreek, ParamKind.comma_notMem_text]
  first := by
    rw [toList_entryText]
    obtain ⟨key, value⟩ := entry
    cases key <;> simp [ParamKey.greek]

theorem toList_intercalate_comma (text : String) (rest : List String) :
    (", ".intercalate (text :: rest)).toList =
      text.toList ++ rest.flatMap fun other => ',' :: ' ' :: other.toList := by
  induction rest generalizing text with
  | nil => simp
  | cons next rest ih =>
    rw [String.intercalate_cons_cons, String.toList_append, String.toList_append, ih]
    simp

theorem splitOn_flatMap_comma {first : List Char} (hfirst : ',' ∉ first) {rest : List String}
    (h : ∀ text ∈ rest, ',' ∉ text.toList) :
    (first ++ rest.flatMap fun other => ',' :: ' ' :: other.toList).splitOn ',' =
      first :: rest.map fun other => ' ' :: other.toList := by
  induction rest generalizing first with
  | nil =>
    rw [List.flatMap_nil, List.append_nil, List.splitOn_eq_singleton hfirst]
    rfl
  | cons next rest ih =>
    obtain ⟨hnext, hrest⟩ := List.forall_mem_cons.mp h
    have hblank : ',' ∉ ' ' :: next.toList := List.not_mem_cons_of_ne_of_not_mem (by decide) hnext
    rw [List.flatMap_cons, List.cons_append, List.splitOn_append_cons_self,
      List.splitOn_eq_singleton hfirst, ih hblank hrest]
    rfl

theorem groupEntries_group {texts : List String} (h : ∀ text ∈ texts, IsEntryText text) :
    groupEntries (group "(" ")" texts) = texts.map String.toList := by
  cases texts with
  | nil => rfl
  | cons text rest =>
    obtain ⟨htext, hrest⟩ := List.forall_mem_cons.mp h
    have hinner : ((group "(" ")" (text :: rest)).toList.drop 2).dropLast =
        text.toList ++ rest.flatMap fun other => ',' :: ' ' :: other.toList := by
      rw [← toList_intercalate_comma]
      simp [group]
    have hblank (other : String) (hother : IsEntryText other) :
        other.toList.dropWhile (· = ' ') = other.toList := by
      obtain ⟨c, chars, hchars, hc⟩ := hother.first
      rw [hchars, List.dropWhile_cons_of_neg (by simpa using hc)]
    obtain ⟨c, chars, hchars, -⟩ := htext.first
    unfold groupEntries
    rw [hinner]
    split
    · next hnil =>
      rw [hchars] at hnil
      cases hnil
    · rw [splitOn_flatMap_comma htext.comma fun other hother => (hrest other hother).comma]
      rw [List.map_cons, List.map_map, hblank text htext, List.map_cons]
      congr 1
      refine List.map_congr_left fun other hother => ?_
      rw [Function.comp_apply, List.dropWhile_cons_of_pos (by decide),
        hblank other (hrest other hother)]

/-! ### Shown parameters -/

/-- The value of a parameter that is not the default. -/
def shownValue? (params defaults : TypedParams) (key : ParamKey) : Option key.Value :=
  (params.get key).bind fun value => if defaults.get key = some value then none else some value

/-- The parameters that are shown, in their order. -/
def shown (params defaults : TypedParams) : List Entry :=
  ParamKey.all.filterMap fun key => (shownValue? params defaults key).map (⟨key, ·⟩)

theorem paramTexts_eq (params defaults : TypedParams) :
    paramTexts params defaults = (shown params defaults).map entryText := by
  rw [paramTexts, shown, List.map_filterMap]
  refine List.filterMap_congr fun key _ => ?_
  unfold paramText? shownValue?
  cases params.get key with
  | none => rfl
  | some value =>
    simp only [Option.bind_some]
    split <;> rfl

/-- Reads the entries of a group. -/
def entriesOf? (text : String) : Option (List Entry) := (groupEntries text).mapM entryOf?

/-- The parameters that the entries of a group give over the defaults. -/
def readGroup? (defaults : TypedParams) (text : String) : Option TypedParams :=
  (entriesOf? text).map fun entries =>
    entries.foldl (fun params entry => params.set entry.1 entry.2) defaults

/-- **What is shown is what a reader finds.** -/
theorem entriesOf?_group (params defaults : TypedParams) :
    entriesOf? (group "(" ")" (paramTexts params defaults)) = some (shown params defaults) := by
  have hgroup : groupEntries (group "(" ")" ((shown params defaults).map entryText)) =
      (shown params defaults).map fun entry => (entryText entry).toList := by
    rw [groupEntries_group (List.forall_mem_map.mpr fun entry _ => isEntryText_entryText entry),
      List.map_map]
    rfl
  rw [entriesOf?, paramTexts_eq, hgroup]
  induction shown params defaults with
  | nil => rfl
  | cons entry rest ih =>
    rw [List.map_cons, List.mapM_cons, entryOf?_entryText, ih]
    rfl

theorem get_foldl_set (values : (key : ParamKey) → Option key.Value) (keys : List ParamKey)
    (start : TypedParams) (key : ParamKey) :
    ((keys.filterMap fun key => (values key).map (Sigma.mk key)).foldl
      (fun params entry => params.set entry.1 entry.2) start).get key =
      if key ∈ keys then (values key).or (start.get key) else start.get key := by
  induction keys generalizing start with
  | nil => rfl
  | cons first rest ih =>
    rw [List.filterMap_cons]
    cases hfirst : values first with
    | none =>
      rw [Option.map_none, ih]
      by_cases hkey : key = first
      · subst hkey
        simp [hfirst]
      · simp [hkey]
    | some value =>
      rw [Option.map_some, List.foldl_cons, ih]
      by_cases hkey : key = first
      · subst hkey
        simp [hfirst, ParamRecord.get_set]
      · simp [hkey, ParamRecord.get_set_ne]

/-- **What was shown over the defaults are the parameters that were written.** -/
theorem readGroup?_group (params defaults : TypedParams) :
    readGroup? defaults (group "(" ")" (paramTexts params defaults)) =
      some (defaults.overlay params) := by
  rw [readGroup?, entriesOf?_group, Option.map_some]
  congr 1
  refine ParamRecord.ext_get fun key => ?_
  rw [shown, get_foldl_set, if_pos (ParamKey.mem_all key), ParamRecord.get_overlay, shownValue?]
  cases params.get key with
  | none => rfl
  | some value =>
    rw [Option.bind_some, Option.some_or]
    split
    · next hdefault => exact hdefault
    · rfl

theorem shownValue?_eq_none {params : TypedParams} (h : params.isComplete)
    (defaults : TypedParams) (key : ParamKey) :
    shownValue? params defaults key = none ↔ params.get key = defaults.get key := by
  obtain ⟨value, hvalue⟩ :=
    Option.isSome_iff_exists.mp ((ParamRecord.isComplete_iff params).mp h key)
  rw [shownValue?, hvalue, Option.bind_some]
  split
  · next hdefault => exact iff_of_true rfl hdefault.symm
  · next hdiffers => exact iff_of_false (Option.some_ne_none _) (Ne.symm hdiffers)

/-- Of complete parameters exactly those are shown that differ from the defaults. -/
theorem map_fst_shown {params : TypedParams} (h : params.isComplete) (defaults : TypedParams) :
    (shown params defaults).map (·.1) =
      ParamKey.all.filter fun key => params.get key ≠ defaults.get key := by
  rw [shown, List.map_filterMap, ← List.filterMap_eq_filter]
  refine List.filterMap_congr fun key _ => ?_
  have hnone := shownValue?_eq_none h defaults key
  cases hshown : shownValue? params defaults key with
  | none => simp [Option.guard, hnone.mp hshown]
  | some value =>
    have hdiffers : params.get key ≠ defaults.get key := fun hsame => by
      rw [hnone.mpr hsame] at hshown
      cases hshown
    simp [Option.guard, hdiffers]

/-! ### Operators -/

/-- The group with which the parameters of a relation are written. -/
def paramGroup (c : Catalog) (base : Operator) (params : TypedParams) : String :=
  group "(" ")" (paramTexts params (c.defaultsOf base))

/-- The default of an operator, and of the catalog where the operator has none. -/
def default? (c : Catalog) (base : Operator) (key : ParamKey) : Option key.Value :=
  (base.defaults.get key).or (c.defaults.get key)

theorem get_defaultsOf (c : Catalog) (base : Operator) (key : ParamKey) :
    (c.defaultsOf base).get key = default? c base key := by
  rw [Catalog.defaultsOf, ParamRecord.get_overlay, default?]

/-- A group is about what is not the default of the operator, and nothing gets lost by that. -/
structure OmitsDefaults (c : Catalog) (base : Operator) : Prop where
  /-- The code of the operator is one of the references that name it. -/
  named : (c.lookup? base.code).bind c.base? = some base
  /-- By whatever reference a relation names the operator, the group is what it is written with. -/
  line : ∀ (m : ResolvedModel) (r : Relation TypedParams),
    (c.lookup? r.operator).bind c.base? = some base →
    relationLine m c r = "@" ++ r.left ++ " " ++ r.operator ++ paramGroup c base r.params ++
      " @" ++ r.right ++ group "[" "]" ((extras m r).map Extra.text)
  /-- What an author leaves to the operator is not shown. -/
  unauthored : ∀ r : Relation (Option AuthoredParams), c.lookup? r.operator = some base →
    (∀ key, r.authored key = none) → paramGroup c base (r.resolvedParams c) = ""
  keys : ∀ params : TypedParams, params.isComplete →
    (entriesOf? (paramGroup c base params)).map (·.map (·.1)) =
      some (ParamKey.all.filter fun key => params.get key ≠ default? c base key)
  empty : ∀ params : TypedParams, params.isComplete →
    (paramGroup c base params = "" ↔ ∀ key, params.get key = default? c base key)
  restored : ∀ params : TypedParams, params.isComplete →
    readGroup? (c.defaultsOf base) (paramGroup c base params) = some params
  distinct : ∀ params others : TypedParams, params.isComplete → others.isComplete →
    paramGroup c base params = paramGroup c base others → params = others

theorem keys_paramGroup (c : Catalog) (base : Operator) {params : TypedParams}
    (h : params.isComplete) :
    (entriesOf? (paramGroup c base params)).map (·.map (·.1)) =
      some (ParamKey.all.filter fun key => params.get key ≠ default? c base key) := by
  rw [paramGroup, entriesOf?_group, Option.map_some, map_fst_shown h]
  simp only [get_defaultsOf]

theorem paramGroup_eq_empty (c : Catalog) (base : Operator) {params : TypedParams}
    (h : params.isComplete) :
    paramGroup c base params = "" ↔ ∀ key, params.get key = default? c base key := by
  have hkeys := keys_paramGroup c base h
  constructor
  · intro hempty key
    rw [hempty] at hkeys
    have hnone := List.filter_eq_nil_iff.mp (Option.some.inj hkeys).symm key (ParamKey.mem_all key)
    simpa using hnone
  · intro hdefaults
    have htexts : paramTexts params (c.defaultsOf base) = [] := by
      rw [paramTexts_eq, List.map_eq_nil_iff, ← List.map_eq_nil_iff (f := (·.1)), map_fst_shown h]
      refine List.filter_eq_nil_iff.mpr fun key _ => ?_
      simp [get_defaultsOf, hdefaults key]
    rw [paramGroup, htexts]
    rfl

/-- **Over the defaults of its operator, a group gives back complete parameters.** -/
theorem readGroup?_paramGroup (c : Catalog) (base : Operator) {params : TypedParams}
    (h : params.isComplete) :
    readGroup? (c.defaultsOf base) (paramGroup c base params) = some params := by
  have hover : (c.defaultsOf base).overlay params = params := by
    refine ParamRecord.ext_get fun key => ?_
    rw [ParamRecord.get_overlay, Option.or_of_isSome ((ParamRecord.isComplete_iff params).mp h key)]
  rw [paramGroup, readGroup?_group, hover]

/-- What the author leaves out is resolved to the defaults of a base operator. -/
theorem get_resolvedParams_of_unauthored {c : Catalog} {base : Operator}
    (hbase : base.aliasOf = none) {r : Relation (Option AuthoredParams)}
    (hlookup : c.lookup? r.operator = some base) {key : ParamKey} (hnone : r.authored key = none) :
    (r.resolvedParams c).get key = default? c base key := by
  have hfixed : r.fixedParams c = {} := by
    rw [Relation.fixedParams, hlookup, Option.bind_some, hbase]
    rfl
  have hown : r.base? c = some base := by
    rw [Relation.base?_of_named hlookup, Catalog.base?, hbase]
  rw [Relation.get_resolvedParams, Relation.get_userParams, hnone, hfixed, Relation.baseDefaults,
    hown]
  cases key <;> rfl

/-- **Leaving out the defaults of an operator loses nothing.** -/
theorem omitsDefaults {c : Catalog} (hc : c.Loadable) {base : Operator}
    (hmem : base ∈ c.operators) (hbase : base.aliasOf = none) : OmitsDefaults c base where
  named := by
    rw [hc.wellFormed.lookup?_code hmem, Option.bind_some, Catalog.base?, hbase]
  line m r hnamed := by
    rw [relationLine, defaultsFor, hnamed]
    rfl
  unauthored r hlookup hnone :=
    (paramGroup_eq_empty c base (r.isComplete_resolvedParams hc.wellFormed)).mpr fun key =>
      get_resolvedParams_of_unauthored hbase hlookup (hnone key)
  keys _ := keys_paramGroup c base
  empty _ := paramGroup_eq_empty c base
  restored _ := readGroup?_paramGroup c base
  distinct params others hparams hothers hsame := by
    have hread := readGroup?_paramGroup c base hparams
    rw [hsame, readGroup?_paramGroup c base hothers] at hread
    exact (Option.some.inj hread).symm

/-- The embedded catalog has such an operator, with parameters that differ from its defaults. -/
theorem omitsDefaults_embedded :
    ∃ base ∈ Catalog.embedded.operators, base.aliasOf = none ∧ base.code = "Bef" ∧
      OmitsDefaults Catalog.embedded base ∧
      ∃ params : TypedParams, params.isComplete ∧
        paramGroup Catalog.embedded base params = " (ζ:<, δ:2.5, ρ:1)" ∧
        readGroup? (Catalog.embedded.defaultsOf base) " (ζ:<, δ:2.5, ρ:1)" = some params := by
  obtain ⟨base, hcode⟩ : ∃ base, Catalog.embedded.byCode? "Bef" = some base :=
    Option.isSome_iff_exists.mp (by decide +kernel)
  have hfacts : ∀ base ∈ Catalog.embedded.byCode? "Bef", base.aliasOf = none ∧ base.code = "Bef" ∧
      paramGroup Catalog.embedded base
        ⟨some .less, some .atMost, some (.finite ⟨5 * 2 ^ 50, 1023, by decide⟩ (by decide +kernel)),
          some .infinite, some ⟨2 ^ 52, 1022, by decide⟩⟩ = " (ζ:<, δ:2.5, ρ:1)" := by
    decide +kernel
  obtain ⟨hbase, hname, hgroup⟩ := hfacts base hcode
  have hmem := List.mem_of_find?_eq_some hcode
  have hlossless := omitsDefaults Catalog.embedded_loadable hmem hbase
  refine ⟨base, hmem, hbase, hname, hlossless, _, by decide, hgroup, ?_⟩
  rw [← hgroup]
  exact hlossless.restored _ (by decide)

end Iseql
end EventPattern
