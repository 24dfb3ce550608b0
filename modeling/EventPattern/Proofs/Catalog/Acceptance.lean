import EventPattern.Proofs.Catalog.WellFormed
import EventPattern.Proofs.Related

/-! Which catalog files load, and to what.

`File.WellFormed` says of a file all that loading asks of it, without the steps in which it is
asked: what the objects of parameters hold and whether they leave a key out, what each entry
has to have, and how the entries belong together. A file loads exactly when it is well formed,
and then the catalog holds what the file describes (`load_exact`): its entries in the order of
their ids, each found by its id and by its code. -/
namespace EventPattern.Catalog

namespace File

/-! ### Parameters -/

/-- The field spells the key, in either way. -/
def spells (key : ParamKey) (field : String × Json) : Bool :=
  (ParamKey.ofName? field.1).any (·.1 = key)

/-- The value of the last field that spells a key. -/
def lastSpelled? (key : ParamKey) (fields : Json.Fields) : Option Json :=
  (fields.reverse.find? (spells key)).map (·.2)

/-- Every field spells a key and holds a value that can be read and that the domains admit. -/
def Allowed (d : Domains) (fields : Json.Fields) : Prop :=
  ∀ field ∈ fields, ∃ key value, IsSetting d field key value

/-- No key is left out. -/
def Covers (fields : Json.Fields) : Prop := ∀ key, ∃ field ∈ fields, spells key field = true

/-- The parameters are what the fields say, the last word on each key. -/
def Says (fields : Json.Fields) (params : TypedParams) : Prop :=
  ∀ key, params.get key = (lastSpelled? key fields).bind key.kind.read?

theorem spells_iff (key : ParamKey) (field : String × Json) :
    spells key field = true ↔ ∃ spelling, ParamKey.ofName? field.1 = some (key, spelling) := by
  unfold spells
  cases ParamKey.ofName? field.1 with
  | none => simp
  | some found =>
    obtain ⟨other, spelling⟩ := found
    simp [eq_comm]

/-- A setting is one of the key that its field spells, and of no other. -/
theorem IsSetting.spells_iff {d : Domains} {field : String × Json} {key : ParamKey}
    {value : key.Value} (h : IsSetting d field key value) (other : ParamKey) :
    spells other field = true ↔ other = key := by
  obtain ⟨⟨spelling, hname⟩, -, -⟩ := h
  unfold spells
  rw [hname, Option.any_some, decide_eq_true_iff]
  exact eq_comm

theorem lastSpelled?_cons (key : ParamKey) (field : String × Json) (rest : Json.Fields) :
    lastSpelled? key (field :: rest) =
      (lastSpelled? key rest).or (if spells key field = true then some field.2 else none) := by
  unfold lastSpelled?
  rw [List.reverse_cons, List.find?_append, List.find?_singleton]
  cases rest.reverse.find? (spells key) with
  | some found => rfl
  | none => split <;> rfl

theorem lastSpelled?_isSome (key : ParamKey) (fields : Json.Fields) :
    (lastSpelled? key fields).isSome ↔ ∃ field ∈ fields, spells key field = true := by
  unfold lastSpelled?
  rw [Option.isSome_map, List.find?_isSome]
  simp

theorem lastSpelled?_mem {key : ParamKey} {fields : Json.Fields} {raw : Json}
    (h : lastSpelled? key fields = some raw) :
    ∃ field ∈ fields, spells key field = true ∧ field.2 = raw := by
  obtain ⟨field, hfind, hraw⟩ := Option.map_eq_some_iff.mp h
  exact ⟨field, List.mem_reverse.mp (List.mem_of_find?_eq_some hfind), List.find?_some hfind, hraw⟩

/-- Reading goes through as long as each field is allowed, whatever was read before. -/
theorem foldlM_addParam_isOk (owner : String) (d : Domains) (fields : Json.Fields)
    (start : TypedParams) :
    (∃ params, fields.foldlM (addParam owner d) start = .ok params) ↔ Allowed d fields := by
  induction fields generalizing start with
  | nil => exact ⟨fun _ => nofun, fun _ => ⟨start, rfl⟩⟩
  | cons field rest ih =>
    simp only [List.foldlM_cons, bind_eq_ok, Allowed, List.forall_mem_cons]
    constructor
    · intro h
      obtain ⟨params, next, hadd, hrest⟩ := h
      obtain ⟨key, value, hsetting, -⟩ := (addParam_eq_ok ..).mp hadd
      exact ⟨⟨key, value, hsetting⟩, (ih next).mp ⟨params, hrest⟩⟩
    · intro h
      obtain ⟨⟨key, value, hsetting⟩, hrest⟩ := h
      obtain ⟨params, hparams⟩ := (ih (start.set key value)).mpr hrest
      exact ⟨params, _, (addParam_eq_ok ..).mpr ⟨key, value, hsetting, rfl⟩, hparams⟩

/-- What is read for a key is the last word of the fields or, if they have none, what was there
before. -/
theorem get_foldlM_addParam {owner : String} {d : Domains} {fields : Json.Fields}
    {start params : TypedParams} (h : fields.foldlM (addParam owner d) start = .ok params)
    (key : ParamKey) :
    params.get key = match lastSpelled? key fields with
      | some raw => key.kind.read? raw
      | none => start.get key := by
  induction fields generalizing start with
  | nil =>
    cases h
    rfl
  | cons field rest ih =>
    rw [List.foldlM_cons, bind_eq_ok] at h
    obtain ⟨next, hadd, hrest⟩ := h
    obtain ⟨named, value, hsetting, rfl⟩ := (addParam_eq_ok ..).mp hadd
    rw [ih hrest, lastSpelled?_cons]
    cases lastSpelled? key rest with
    | some raw => rfl
    | none =>
      by_cases hkey : key = named
      · subst hkey
        rw [if_pos ((hsetting.spells_iff key).mpr rfl), ParamRecord.get_set]
        exact hsetting.2.1.symm
      · rw [if_neg (mt (hsetting.spells_iff key).mp hkey), ParamRecord.get_set_ne _ _ hkey]
        rfl

theorem typedParams_isOk (owner : String) (d : Domains) (fields : Json.Fields) :
    (∃ params, typedParams owner d fields = .ok params) ↔ Allowed d fields :=
  foldlM_addParam_isOk owner d fields {}

theorem typedParams_states {owner : String} {d : Domains} {fields : Json.Fields}
    {params : TypedParams} (h : typedParams owner d fields = .ok params) : Says fields params := by
  intro key
  rw [get_foldlM_addParam h key]
  cases lastSpelled? key fields with
  | some raw => rfl
  | none => cases key <;> rfl

/-- Where every field is allowed, the parameters have a value for each key that is spelled. -/
theorem Says.isComplete_iff {d : Domains} {fields : Json.Fields} {params : TypedParams}
    (h : Says fields params) (hallowed : Allowed d fields) : params.isComplete ↔ Covers fields := by
  rw [ParamRecord.isComplete_iff]
  refine forall_congr' fun key => ?_
  rw [h key, ← lastSpelled?_isSome]
  cases hlast : lastSpelled? key fields with
  | none => rfl
  | some raw =>
    obtain ⟨field, hfield, hspells, rfl⟩ := lastSpelled?_mem hlast
    obtain ⟨named, value, hsetting⟩ := hallowed field hfield
    obtain rfl := (hsetting.spells_iff key).mp hspells
    rw [Option.bind_some, hsetting.2.1]
    rfl

/-! ### Entries -/

/-- What an entry has to have by itself. -/
structure Entry.WellFormed (entry : Entry) : Prop where
  id : entry.id ≠ ""
  code : entry.code ≠ ""
  arity : entry.arity = Operator.arity
  defaults : Allowed entry.domains entry.defaults
  complete : entry.kind = .base → Covers entry.defaults
  mapping : entry.kind = .derived →
    ∃ mapping, entry.mapsTo = some mapping ∧ Allowed entry.domains mapping.fixed

/-- The operator is what its entry describes. -/
structure Entry.Describes (entry : Entry) (op : Operator) : Prop where
  frame : op = entry.operator op.defaults op.aliasOf
  defaults : Says entry.defaults op.defaults
  base : entry.kind = .base → op.aliasOf = none
  derived : entry.kind = .derived → ∃ mapping link, entry.mapsTo = some mapping ∧
    op.aliasOf = some link ∧ link.target = mapping.target ∧ Says mapping.fixed link.fixed

namespace Entry.Describes

variable {entry : Entry} {op : Operator}

theorem id_eq (h : entry.Describes op) : op.id = entry.id := congrArg Operator.id h.frame

theorem code_eq (h : entry.Describes op) : op.code = entry.code := congrArg Operator.code h.frame

theorem kind_eq_base (h : entry.Describes op) (hnone : op.aliasOf = none) : entry.kind = .base := by
  cases hkind : entry.kind with
  | base => rfl
  | derived =>
    obtain ⟨mapping, link, -, hsome, -⟩ := h.derived hkind
    rw [hnone] at hsome
    cases hsome

end Entry.Describes

theorem loadOperator_describes {entry : Entry} {position : Nat} {op : Operator}
    (h : loadOperator entry position = .ok op) : entry.Describes op := by
  obtain ⟨-, defaults, aliasOf, hdefaults, halias, -, rfl⟩ := (loadOperator_eq_ok ..).mp h
  rcases (loadAlias_eq_ok ..).mp halias with
    ⟨hkind, rfl⟩ | ⟨hkind, mapping, fixed, hmaps, hfixed, rfl⟩
  · exact ⟨rfl, typedParams_states hdefaults, fun _ => rfl,
      fun hderived => nomatch hkind ▸ hderived⟩
  · exact ⟨rfl, typedParams_states hdefaults, fun hbase => (nomatch hkind ▸ hbase),
      fun _ => ⟨mapping, _, hmaps, rfl, rfl, typedParams_states hfixed⟩⟩

theorem loadAlias_isOk (entry : Entry) :
    (∃ aliasOf, loadAlias entry = .ok aliasOf) ↔
      (entry.kind = .derived →
        ∃ mapping, entry.mapsTo = some mapping ∧ Allowed entry.domains mapping.fixed) := by
  constructor
  · intro h hderived
    obtain ⟨aliasOf, halias⟩ := h
    rcases (loadAlias_eq_ok ..).mp halias with ⟨hbase, -⟩ | ⟨-, mapping, fixed, hmaps, hfixed, -⟩
    · exact nomatch hbase ▸ hderived
    · exact ⟨mapping, hmaps, (typedParams_isOk ..).mp ⟨fixed, hfixed⟩⟩
  · intro h
    cases hkind : entry.kind with
    | base => exact ⟨none, (loadAlias_eq_ok ..).mpr (.inl ⟨hkind, rfl⟩)⟩
    | derived =>
      obtain ⟨mapping, hmaps, hallowed⟩ := h hkind
      obtain ⟨fixed, hfixed⟩ := (typedParams_isOk entry.id _ _).mpr hallowed
      exact ⟨_, (loadAlias_eq_ok ..).mpr (.inr ⟨hkind, mapping, fixed, hmaps, hfixed, rfl⟩)⟩

theorem loadOperator_isOk (entry : Entry) (position : Nat) :
    (∃ op, loadOperator entry position = .ok op) ↔ entry.WellFormed := by
  constructor
  · intro h
    obtain ⟨op, hop⟩ := h
    obtain ⟨⟨hid, hcode, harity⟩, defaults, aliasOf, hdefaults, halias, hcomplete, -⟩ :=
      (loadOperator_eq_ok ..).mp hop
    have hallowed := (typedParams_isOk ..).mp ⟨defaults, hdefaults⟩
    exact ⟨hid, hcode, harity, hallowed,
      fun hbase => ((typedParams_states hdefaults).isComplete_iff hallowed).mp (hcomplete hbase),
      (loadAlias_isOk entry).mp ⟨aliasOf, halias⟩⟩
  · intro h
    obtain ⟨defaults, hdefaults⟩ := (typedParams_isOk entry.id _ _).mpr h.defaults
    obtain ⟨aliasOf, halias⟩ := (loadAlias_isOk entry).mpr h.mapping
    exact ⟨_, (loadOperator_eq_ok ..).mpr ⟨⟨h.id, h.code, h.arity⟩, defaults, aliasOf, hdefaults,
      halias, fun hbase =>
        ((typedParams_states hdefaults).isComplete_iff h.defaults).mpr (h.complete hbase), rfl⟩⟩

/-! ### Files -/

/-- All that loading asks of a file. -/
structure WellFormed (file : File) : Prop where
  defaults : Allowed {} file.parameterDefaults
  complete : Covers file.parameterDefaults
  entries : ∀ entry ∈ file.operators, entry.WellFormed
  targets : ∀ entry ∈ file.operators, entry.kind = .derived →
    ∀ mapping, entry.mapsTo = some mapping →
      ∃ base ∈ file.operators, base.kind = .base ∧ base.id = mapping.target
  ids : (file.operators.map (·.id)).Nodup
  codes : (file.operators.map (·.code)).Nodup

/-- The catalog holds what the file describes, and finds it. -/
structure Presents (file : File) (c : Catalog) : Prop where
  version : c.schemaVersion = file.schemaVersion
  defaults : Says file.parameterDefaults c.defaults
  operators : ∃ described, List.Forall₂ Entry.Describes file.operators described ∧
    c.operators.Perm described
  ascending : c.operators.Pairwise fun a b => a.id < b.id
  byId : ∀ id op, c.byId? id = some op ↔ op ∈ c.operators ∧ op.id = id
  byCode : ∀ code op, c.byCode? code = some op ↔ op ∈ c.operators ∧ op.code = code
  codeFirst : ∀ op ∈ c.operators, c.lookup? op.code = some op
  idSecond : ∀ reference, (∀ op ∈ c.operators, op.code ≠ reference) →
    c.lookup? reference = c.byId? reference
  base : ∀ op ∈ c.operators, ∃ base ∈ c.operators, c.base? op = some base ∧ base.aliasOf = none

section Loaded
variable {entries : List Entry} {ops : List Operator}

/-- Where each entry loads, all of them do. -/
theorem exists_loaded (h : ∀ entry ∈ entries, entry.WellFormed) (start : Nat) :
    ∃ ops, List.Forall₂ (fun entry op => loadOperator entry.1 entry.2 = .ok op)
      (entries.zipIdx start) ops := by
  induction entries generalizing start with
  | nil => exact ⟨[], .nil⟩
  | cons entry rest ih =>
    obtain ⟨hentry, hrest⟩ := List.forall_mem_cons.mp h
    obtain ⟨op, hop⟩ := (loadOperator_isOk entry start).mpr hentry
    obtain ⟨ops, hops⟩ := ih hrest (start + 1)
    exact ⟨op :: ops, .cons hop hops⟩

theorem describes_of_loaded {start : Nat}
    (h : List.Forall₂ (fun entry op => loadOperator entry.1 entry.2 = .ok op)
      (entries.zipIdx start) ops) : List.Forall₂ Entry.Describes entries ops := by
  rw [← List.zipIdx_map_fst start entries, List.forall₂_map_left_iff]
  exact h.imp fun _ _ => loadOperator_describes

theorem wellFormed_of_loaded {start : Nat}
    (h : List.Forall₂ (fun entry op => loadOperator entry.1 entry.2 = .ok op)
      (entries.zipIdx start) ops) : ∀ entry ∈ entries, entry.WellFormed := by
  intro entry hentry
  rw [← List.zipIdx_map_fst start entries] at hentry
  obtain ⟨⟨_, position⟩, hmem, rfl⟩ := List.mem_map.mp hentry
  obtain ⟨op, -, hop⟩ := forall₂_exists_of_mem h hmem
  exact (loadOperator_isOk _ position).mp ⟨op, hop⟩

theorem ids_of_described (h : List.Forall₂ Entry.Describes entries ops) :
    ops.map (·.id) = entries.map (·.id) := by
  induction h with
  | nil => rfl
  | cons hentry _ ih => rw [List.map_cons, List.map_cons, hentry.id_eq, ih]

theorem codes_of_described (h : List.Forall₂ Entry.Describes entries ops) :
    ops.map (·.code) = entries.map (·.code) := by
  induction h with
  | nil => rfl
  | cons hentry _ ih => rw [List.map_cons, List.map_cons, hentry.code_eq, ih]

end Loaded

/-- A file that loads is well formed. -/
theorem wellFormed_of_load {file : File} {c : Catalog} (h : file.load = .ok c) :
    file.WellFormed := by
  have hwell : c.WellFormed := Loadable.wellFormed ⟨file, h⟩
  obtain ⟨defaults, loaded, hdefaults, hcomplete, hloaded, rfl, hdistinct, haliases⟩ :=
    (load_eq_ok ..).mp h
  have hallowed := (typedParams_isOk ..).mp ⟨defaults, hdefaults⟩
  have hdescribed := describes_of_loaded hloaded
  have hperm := sortOn_perm Operator.id loaded
  have hdistinct := hdistinct.perm hperm
  refine {
    defaults := hallowed
    complete := ((typedParams_states hdefaults).isComplete_iff hallowed).mp hcomplete
    entries := wellFormed_of_loaded hloaded
    targets := fun entry hentry hderived mapping hmaps => ?_
    ids := ids_of_described hdescribed ▸ hdistinct.1
    codes := codes_of_described hdescribed ▸ hdistinct.2 }
  obtain ⟨op, hop, hdescribes⟩ := forall₂_exists_of_mem hdescribed hentry
  obtain ⟨mapping', link, hmaps', halias, htarget, -⟩ := hdescribes.derived hderived
  obtain rfl := Option.some.inj (hmaps.symm.trans hmaps')
  have hmem := (mem_sortOn Operator.id).mpr hop
  obtain ⟨found, hfound, hnone⟩ := (checkAlias_eq_ok _ op).mp (haliases op hmem) link halias
  obtain ⟨base, hbase, hdescribesBase⟩ := forall₂_exists_of_mem hdescribed.flip
    ((mem_sortOn Operator.id).mp (mem_of_byId? hfound))
  refine ⟨base, hbase, hdescribesBase.kind_eq_base hnone, ?_⟩
  rw [← hdescribesBase.id_eq, ← htarget]
  exact ((hwell.byId?_eq_some link.target found).mp hfound).2

/-- A well-formed file loads. -/
theorem WellFormed.load_isOk {file : File} (h : file.WellFormed) : ∃ c, file.load = .ok c := by
  obtain ⟨defaults, hdefaults⟩ := (typedParams_isOk "parameterDefaults" _ _).mpr h.defaults
  obtain ⟨loaded, hloaded⟩ := exists_loaded h.entries 0
  have hcomplete := ((typedParams_states hdefaults).isComplete_iff h.defaults).mpr h.complete
  have hdescribed := describes_of_loaded hloaded
  have hperm := sortOn_perm Operator.id loaded
  have hdistinct : Distinct (sortOn Operator.id loaded) := by
    refine Distinct.perm ⟨?_, ?_⟩ hperm.symm
    · exact ids_of_described hdescribed ▸ h.ids
    · exact codes_of_described hdescribed ▸ h.codes
  refine ⟨_, (load_eq_ok ..).mpr ⟨defaults, loaded, hdefaults, hcomplete, hloaded, rfl, hdistinct,
    fun op hop => (checkAlias_eq_ok _ op).mpr fun link halias => ?_⟩⟩
  obtain ⟨entry, hentry, hdescribes⟩ :=
    forall₂_exists_of_mem hdescribed.flip ((mem_sortOn Operator.id).mp hop)
  cases hkind : entry.kind with
  | base =>
    rw [hdescribes.base hkind] at halias
    cases halias
  | derived =>
    obtain ⟨mapping, link', hmaps, hsome, htarget, -⟩ := hdescribes.derived hkind
    obtain rfl := Option.some.inj (halias.symm.trans hsome)
    obtain ⟨base, hbase, hbaseKind, hid⟩ :=
      h.targets entry hentry hkind mapping hmaps
    obtain ⟨found, hfound, hdescribesBase⟩ := forall₂_exists_of_mem hdescribed hbase
    refine ⟨found, (find?_key_eq_some hdistinct.1 link.target found).mpr ⟨?_, ?_⟩,
      hdescribesBase.base hbaseKind⟩
    · exact (mem_sortOn Operator.id).mpr hfound
    · rw [hdescribesBase.id_eq, hid, htarget]

/-- What a file loads to. -/
theorem presents_of_load {file : File} {c : Catalog} (h : file.load = .ok c) :
    file.Presents c := by
  have hwell : c.WellFormed := Loadable.wellFormed ⟨file, h⟩
  obtain ⟨defaults, loaded, hdefaults, -, hloaded, rfl, hdistinct, -⟩ := (load_eq_ok ..).mp h
  exact {
    version := rfl
    defaults := typedParams_states hdefaults
    operators := ⟨loaded, describes_of_loaded hloaded, sortOn_perm Operator.id loaded⟩
    ascending := pairwise_lt_sortOn Operator.id (hdistinct.perm (sortOn_perm _ loaded)).1
    byId := hwell.byId?_eq_some
    byCode := hwell.byCode?_eq_some
    codeFirst := fun op hop => hwell.lookup?_code hop
    idSecond := fun reference hnone => hwell.lookup?_of_no_code hnone
    base := fun op hop => by
      obtain ⟨base, hbase, hmem, hnone⟩ := hwell.base?_eq_some hop
      exact ⟨base, hmem, hbase, hnone⟩ }

/-- **A catalog file loads exactly when it is well formed**, and then the catalog holds what the
file describes: the entries in ascending order of their ids, found by exactly the id and the code
that they have, by the code first, and with a base operator behind each of them. -/
theorem load_exact (file : File) :
    ((∃ c, file.load = .ok c) ↔ file.WellFormed) ∧
      ∀ c, file.load = .ok c → file.Presents c := by
  refine ⟨⟨fun h => ?_, WellFormed.load_isOk⟩, fun c => presents_of_load⟩
  obtain ⟨c, hc⟩ := h
  exact wellFormed_of_load hc

end File
end EventPattern.Catalog
