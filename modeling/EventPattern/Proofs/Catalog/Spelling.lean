import EventPattern.Catalog.Reading
import EventPattern.Proofs.Catalog.Acceptance
import EventPattern.Proofs.Json.Keys

/-! Which spelling of a key counts in a catalog file.

Of the two spellings of a key, a document's reader takes the Latin one. A catalog's reader takes
the fields of an object one after the other, the last word on each key being the one that counts.
The objects of a file have their keys in ascending order (`ascending_of_ofText?`), in which a
Greek spelling comes after its Latin one, so in a catalog it is the Greek one that counts
(`lastSpelled?_eq`). The two readers agree exactly on the objects in which no two spellings of a
key say different things (`parameters_spelling`). -/
namespace EventPattern.Catalog.File

/-! ### The objects of a file -/

/-- The objects of parameters in a file, each with its owner and with the domains that its values
have to be in. -/
inductive HasParams (file : File) : String → Domains → Json.Fields → Prop where
  | defaults : HasParams file "parameterDefaults" {} file.parameterDefaults
  | operator {entry : Entry} (h : entry ∈ file.operators) :
    HasParams file entry.id entry.domains entry.defaults
  | fixed {entry : Entry} {mapping : Mapping} (h : entry ∈ file.operators)
    (hmaps : entry.mapsTo = some mapping) :
    HasParams file entry.id entry.domains mapping.fixed

theorem exists_of_mem_mapM {α β : Type} {read : α → Option β} {items : List α} {results : List β}
    (h : items.mapM read = some results) {b : β} (hb : b ∈ results) :
    ∃ a ∈ items, read a = some b := by
  induction items generalizing results with
  | nil =>
    cases h
    cases hb
  | cons item rest ih =>
    simp only [List.mapM_cons, Option.bind_eq_bind, Option.bind_eq_some_iff, Option.pure_def,
      Option.some.injEq] at h
    obtain ⟨first, hfirst, others, hothers, rfl⟩ := h
    rcases List.mem_cons.mp hb with rfl | hb
    · exact ⟨item, List.mem_cons_self .., hfirst⟩
    · obtain ⟨a, ha, hread⟩ := ih hothers hb
      exact ⟨a, List.mem_cons_of_mem _ ha, hread⟩

theorem ascending_of_freeForm {openBrackets : Nat} {tree : Json.Tree} {fields : Json.Fields}
    (h : freeForm openBrackets tree = some fields) : fields.Ascending := by
  obtain ⟨json, hvalue, hobject⟩ := Option.bind_eq_some_iff.mp h
  cases tree with
  | object entries =>
    rw [Json.Tree.value?] at hvalue
    split at hvalue
    · cases hvalue
    · obtain ⟨values, -, rfl⟩ := Option.map_eq_some_iff.mp hvalue
      cases hobject
      exact (Json.Fields.ofEntries_spec values).1
  | array items =>
    rw [Json.Tree.value?] at hvalue
    split at hvalue
    · cases hvalue
    · obtain ⟨values, -, rfl⟩ := Option.map_eq_some_iff.mp hvalue
      cases hobject
  | number lexeme =>
    obtain ⟨n, -, rfl⟩ := Option.map_eq_some_iff.mp hvalue
    cases hobject
  | string raw =>
    obtain ⟨text, -, rfl⟩ := Option.map_eq_some_iff.mp hvalue
    cases hobject
  | null =>
    cases hvalue
    cases hobject
  | bool b =>
    cases hvalue
    cases hobject

/-- A free-form object that may be left out has its keys in order either way. -/
theorem ascending_of_defaulting {layout : List (String × Json.Tree)} {key : String}
    {openBrackets : Nat} {fields : Json.Fields}
    (h : defaulting layout key [] (freeForm openBrackets) = some fields) : fields.Ascending := by
  unfold defaulting at h
  split at h
  · cases h
    exact .nil
  · exact ascending_of_freeForm h

theorem ascending_of_mapping? {tree : Json.Tree} {mapping : Mapping}
    (h : mapping? tree = some mapping) : mapping.fixed.Ascending := by
  simp only [mapping?, Option.bind_eq_bind, Option.bind_eq_some_iff] at h
  obtain ⟨layout, -, target, -, fixed, hfixed, h⟩ := h
  cases h
  exact ascending_of_defaulting hfixed

theorem ascending_of_parameters? {tree : Json.Tree} {parameters : Parameters}
    (h : parameters? tree = some parameters) : parameters.defaults.Ascending := by
  simp only [parameters?, Option.bind_eq_bind, Option.bind_eq_some_iff] at h
  obtain ⟨layout, -, supported, -, defaults, hdefaults, domains, -, h⟩ := h
  cases h
  exact ascending_of_defaulting hdefaults

theorem ascending_of_entry {tree : Json.Tree} {entry : Entry} (h : entry? tree = some entry) :
    entry.defaults.Ascending ∧
      ∀ mapping, entry.mapsTo = some mapping → mapping.fixed.Ascending := by
  obtain ⟨-, -, h⟩ := Option.bind_eq_some_iff.mp h
  simp only [Option.bind_eq_bind, Option.bind_eq_some_iff] at h
  obtain ⟨layout, -, kind, -, id, -, code, -, label, -, description, -, arity, -,
    parameters, hparameters, compatibility, -, mapsTo, hmapsTo, h⟩ := h
  cases h
  constructor
  · unfold defaulting at hparameters
    split at hparameters
    · cases hparameters
      exact .nil
    · exact ascending_of_parameters? hparameters
  · intro mapping hmapping
    replace hmapping : mapsTo = some mapping := hmapping
    subst hmapping
    unfold defaulting nullable at hmapsTo
    split at hmapsTo
    · cases hmapsTo
    · split at hmapsTo
      · cases hmapsTo
      · obtain ⟨read, hread, hsome⟩ := Option.map_eq_some_iff.mp hmapsTo
        cases hsome
        exact ascending_of_mapping? hread

/-- In the text of a file no object of parameters has its keys out of order, or one of them
twice. -/
theorem ascending_of_ofText? {text : String} {file : File} (hfile : ofText? text = some file)
    {owner : String} {d : Domains} {fields : Json.Fields} (h : file.HasParams owner d fields) :
    fields.Ascending := by
  obtain ⟨tree, -, hfile⟩ := Option.bind_eq_some_iff.mp hfile
  simp only [ofTree?, Option.bind_eq_bind, Option.bind_eq_some_iff] at hfile
  obtain ⟨layout, -, version, -, defaults, hdefaults, operators, hoperators, hfile⟩ := hfile
  cases hfile
  have hentry {entry : Entry} (hmem : entry ∈ operators) :
      ∃ tree, entry? tree = some entry := by
    obtain ⟨tree, -, hlist⟩ := Option.bind_eq_some_iff.mp hoperators
    cases tree with
    | array items =>
      obtain ⟨item, -, hitem⟩ := exists_of_mem_mapM hlist hmem
      exact ⟨item, hitem⟩
    | _ => cases hlist
  cases h with
  | defaults => exact ascending_of_defaulting hdefaults
  | operator hmem =>
    obtain ⟨tree, htree⟩ := hentry hmem
    exact (ascending_of_entry htree).1
  | fixed hmem hmaps =>
    obtain ⟨tree, htree⟩ := hentry hmem
    exact (ascending_of_entry htree).2 _ hmaps

/-! ### The last word on a key -/

theorem latin_lt_greek (key : ParamKey) : key.latin < key.greek := by
  cases key <;> decide

theorem get?_eq_none_of_le {field : String × Json} {rest : Json.Fields}
    (h : Json.Fields.Ascending (field :: rest)) {name : String} (hle : name ≤ field.1) :
    Json.Fields.get? rest name = none := by
  rw [Option.eq_none_iff_forall_ne_some]
  intro value hvalue
  have hlt : field.1 < name := List.rel_of_pairwise_cons h (Json.Fields.mem_of_get? hvalue)
  exact absurd (Std.lt_of_le_of_lt hle hlt) (String.lt_irrefl _)

/-- Where the keys are in order, the Greek spelling of a key has the last word on it. -/
theorem lastSpelled?_eq {fields : Json.Fields} (h : fields.Ascending) (key : ParamKey) :
    lastSpelled? key fields = (fields.get? key.greek).or (fields.get? key.latin) := by
  have hlt := latin_lt_greek key
  have hne : key.latin ≠ key.greek := Std.ne_of_lt hlt
  induction fields with
  | nil => rfl
  | cons field rest ih =>
    rw [lastSpelled?_cons, ih (List.Pairwise.of_cons h), Json.Fields.get?_cons,
      Json.Fields.get?_cons]
    by_cases hgreek : field.1 = key.greek
    · have hspells : spells key field = true := by
        rw [spells_iff, hgreek, ParamKey.ofName?_greek]
        exact ⟨_, rfl⟩
      rw [get?_eq_none_of_le h (Std.le_of_eq hgreek.symm),
        get?_eq_none_of_le h (hgreek ▸ Std.le_of_lt hlt), if_pos hspells, if_pos hgreek]
      rfl
    · rw [if_neg hgreek]
      by_cases hlatin : field.1 = key.latin
      · have hspells : spells key field = true := by
          rw [spells_iff, hlatin, ParamKey.ofName?_latin]
          exact ⟨_, rfl⟩
        rw [get?_eq_none_of_le h (Std.le_of_eq hlatin.symm), if_pos hspells, if_pos hlatin,
          Option.or_none]
      · have hspells : ¬ spells key field = true := by
          rw [spells_iff]
          rintro ⟨spelling, hname⟩
          cases spelling with
          | latin => exact hlatin (ParamKey.eq_spelled_of_ofName? hname)
          | greek => exact hgreek (ParamKey.eq_spelled_of_ofName? hname)
        rw [if_neg hspells, if_neg hlatin, Option.or_none]

/-- No two spellings of a key that stand side by side say different things. -/
def Agrees (fields : Json.Fields) : Prop :=
  ∀ (key : ParamKey) latin greek, fields.get? key.latin = some latin →
    fields.get? key.greek = some greek → key.kind.read? latin = key.kind.read? greek

/-- **In a catalog file the Greek spelling counts.** Of every object of parameters that a file
holds and that can be read, the value of a key is the one under its Greek spelling and, only where
there is none, the one under its Latin spelling. It is what a document's reader takes from that
object exactly if the spellings that stand side by side agree. -/
theorem parameters_spelling {text : String} {file : File} (hfile : ofText? text = some file)
    {owner : String} {d : Domains} {fields : Json.Fields} (hfields : file.HasParams owner d fields)
    {params : TypedParams} (hload : typedParams owner d fields = .ok params) :
    (∀ key, params.get key =
      ((fields.get? key.greek).or (fields.get? key.latin)).bind key.kind.read?) ∧
      (params = (AuthoredParams.ofFields fields).normalize ↔ Agrees fields) := by
  have hget (key : ParamKey) : params.get key =
      ((fields.get? key.greek).or (fields.get? key.latin)).bind key.kind.read? := by
    rw [typedParams_states hload key, lastSpelled?_eq (ascending_of_ofText? hfile hfields)]
  have hnormal (key : ParamKey) : (AuthoredParams.ofFields fields).normalize.get key =
      ((fields.get? key.latin).or (fields.get? key.greek)).bind key.kind.read? := by
    simp [AuthoredParams.normalize, AuthoredParams.effective, AuthoredParams.ofFields]
  refine ⟨hget, fun h key latin greek hlatin hgreek => ?_, fun h => ?_⟩
  · have hkey := hnormal key
    rw [← h, hget key, hlatin, hgreek] at hkey
    exact hkey.symm
  · refine ParamRecord.ext_get fun key => ?_
    rw [hget key, hnormal key]
    cases hlatin : fields.get? key.latin with
    | none => simp
    | some latin =>
      cases hgreek : fields.get? key.greek with
      | none => simp
      | some greek => exact (h key latin greek hlatin hgreek).symm

/-- Two spellings of ζ that stand for the same comparator. -/
def agreeingText : String :=
  "\x7b\"operators\":[],\"parameterDefaults\":\x7b\"zeta\":\"<=\",\"ζ\":\"≤\"\x7d\x7d"

/-- Two spellings of δ with different bounds. -/
def disagreeingText : String :=
  "\x7b\"operators\":[],\"parameterDefaults\":\x7b\"delta\":1,\"epsilon\":0,\"eta\":\"<\",\"rho\":0,\"zeta\":\"<\",\"δ\":2\x7d\x7d"

theorem agreeingText_spelling : ∃ file params, ofText? agreeingText = some file ∧
    typedParams "parameterDefaults" {} file.parameterDefaults = .ok params ∧
    params = (AuthoredParams.ofFields file.parameterDefaults).normalize := by
  have hfile : ∃ file, ofText? agreeingText = some file ∧
      file.parameterDefaults = [("zeta", .string "<="), ("ζ", .string "≤")] := by
    rw [ofText?, Json.tree?, agreeingText, String.toList_ofList]
    exact ⟨_, rfl, rfl⟩
  obtain ⟨file, hfile, hfields⟩ := hfile
  have hload : typedParams "parameterDefaults" {} file.parameterDefaults =
      .ok { zeta := some Comparator.atMost } := by
    rw [hfields]
    rfl
  refine ⟨file, _, hfile, hload, (parameters_spelling hfile .defaults hload).2.mpr ?_⟩
  rw [hfields]
  intro key latin greek hlatin hgreek
  cases key with
  | zeta =>
    cases hlatin
    cases hgreek
    rfl
  | _ => cases hlatin

/-- What the text says of every key, with a choice between its bounds for δ. -/
def boundedBy (bound : Int) : TypedParams where
  zeta := some Comparator.less
  eta := some Comparator.less
  delta := Threshold.ofNumber? (.ofInt bound)
  epsilon := Threshold.ofNumber? .zero
  rho := some Binary64.zero

/-- The file loads, with the bound that stands under the Greek spelling. -/
theorem disagreeingText_spelling : ∃ file c, ofText? disagreeingText = some file ∧
    file.load = .ok c ∧ c.defaults = boundedBy 2 ∧
    typedParams "parameterDefaults" {} file.parameterDefaults = .ok (boundedBy 2) ∧
    (AuthoredParams.ofFields file.parameterDefaults).normalize = boundedBy 1 ∧
    boundedBy 2 ≠ boundedBy 1 := by
  have hfacts : (ofText? disagreeingText).any (fun file => decide
      (file.load.toOption.map (·.defaults) = some (boundedBy 2) ∧
        (AuthoredParams.ofFields file.parameterDefaults).normalize = boundedBy 1)) = true := by
    rw [ofText?, Json.tree?, disagreeingText, String.toList_ofList]
    decide +kernel
  obtain ⟨file, hfile, hfacts⟩ := (Option.any_eq_true ..).mp hfacts
  obtain ⟨hdefaults, hnormal⟩ := of_decide_eq_true hfacts
  obtain ⟨c, hload, hbound⟩ := Option.map_eq_some_iff.mp hdefaults
  replace hload : file.load = .ok c := by
    cases hresult : file.load <;> simp_all [Except.toOption]
  have hparams : typedParams "parameterDefaults" {} file.parameterDefaults = .ok (boundedBy 2) := by
    obtain ⟨params, loaded, hparams, -, -, rfl, -⟩ := (load_eq_ok ..).mp hload
    exact hbound ▸ hparams
  exact ⟨file, c, hfile, hload, hbound, hparams, hnormal, by decide +kernel⟩

end EventPattern.Catalog.File
