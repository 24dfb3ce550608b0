import EventPattern.Catalog.File
import EventPattern.Proofs.Param.Reading
import EventPattern.Proofs.Sorting
import Mathlib.Data.List.Forall2

/-! What loading a catalog file checks.

Each step of loading gives a result exactly when what it is there to check holds. Taken
together they say what every loaded catalog is like (`Loadable.wellFormed`): all defaults are
there and allowed where they are declared, ids and codes tell operators apart, and every
alias leads to a base operator. -/
namespace EventPattern

/-! ### Steps that may fail -/

section Except
variable {ε α β : Type}

theorem bind_eq_ok (first : Except ε α) (next : α → Except ε β) (b : β) :
    first >>= next = .ok b ↔ ∃ a, first = .ok a ∧ next a = .ok b := by
  cases first with
  | ok a => exact ⟨fun h => ⟨a, rfl, h⟩, fun ⟨_, rfl, h⟩ => h⟩
  | error e => exact ⟨nofun, fun ⟨_, h, _⟩ => nomatch h⟩

theorem mapM_eq_ok (f : α → Except ε β) (items : List α) (results : List β) :
    items.mapM f = .ok results ↔ List.Forall₂ (fun a b => f a = .ok b) items results := by
  induction items generalizing results with
  | nil => simp [List.mapM_nil, pure, Except.pure, eq_comm]
  | cons item rest ih =>
    rw [List.mapM_cons, bind_eq_ok, List.forall₂_cons_left_iff]
    constructor
    · intro h
      obtain ⟨b, hb, h⟩ := h
      obtain ⟨bs, hbs, h⟩ := (bind_eq_ok _ _ _).mp h
      cases h
      exact ⟨b, bs, hb, (ih bs).mp hbs, rfl⟩
    · intro h
      obtain ⟨b, bs, hb, hbs, rfl⟩ := h
      exact ⟨b, hb, (bind_eq_ok _ _ _).mpr ⟨bs, (ih bs).mpr hbs, rfl⟩⟩

theorem forM_eq_ok (f : α → Except ε Unit) (items : List α) :
    items.forM f = .ok () ↔ ∀ item ∈ items, f item = .ok () := by
  induction items with
  | nil => simp [pure, Except.pure]
  | cons item rest ih =>
    rw [List.forM_eq_forM, List.forM_cons, bind_eq_ok, List.forall_mem_cons, ← ih]
    exact ⟨fun ⟨_, hitem, hrest⟩ => ⟨hitem, hrest⟩, fun ⟨hitem, hrest⟩ => ⟨(), hitem, hrest⟩⟩

/-- What every step keeps holds of the result. -/
theorem foldlM_keeps {step : β → α → Except ε β} {P : β → Prop}
    (hstep : ∀ b a b', P b → step b a = .ok b' → P b') (items : List α) (start result : β)
    (hstart : P start) (h : items.foldlM step start = .ok result) : P result := by
  induction items generalizing start with
  | nil =>
    cases h
    exact hstart
  | cons item rest ih =>
    rw [List.foldlM_cons, bind_eq_ok] at h
    obtain ⟨next, hnext, h⟩ := h
    exact ih next (hstep start item next hstart hnext) h

end Except

/-! ### Parameters -/

theorem ParamRecord.get_set {α : ParamKey → Type} (r : ParamRecord α) (key : ParamKey)
    (value : α key) : (r.set key value).get key = some value := by
  cases key <;> rfl

theorem ParamRecord.get_set_ne {α : ParamKey → Type} (r : ParamRecord α) {key other : ParamKey}
    (value : α key) (h : other ≠ key) : (r.set key value).get other = r.get other := by
  cases key <;> cases other <;> first | rfl | exact absurd rfl h

/-- What holds of the new value and of all the others holds of every value. -/
theorem ParamRecord.forall_get_set {α : ParamKey → Type} {P : (key : ParamKey) → α key → Prop}
    {r : ParamRecord α} {key : ParamKey} {value : α key}
    (hold : ∀ other found, r.get other = some found → P other found) (hnew : P key value) :
    ∀ other found, (r.set key value).get other = some found → P other found := by
  intro other found hget
  by_cases hkey : other = key
  · subst hkey
    rw [get_set] at hget
    cases hget
    exact hnew
  · rw [get_set_ne _ _ hkey] at hget
    exact hold other found hget

/-- Every value of the record is one that the domains allow. -/
def Domains.Admits (d : Domains) (params : TypedParams) : Prop :=
  ∀ key value, params.get key = some value → d.admits key.kind value = true

namespace Catalog.File

/-- A field that may be laid over the parameters of an owner with these domains. -/
def IsSetting (d : Domains) (field : String × Json) (key : ParamKey) (value : key.Value) : Prop :=
  (∃ spelling, ParamKey.ofName? field.1 = some (key, spelling)) ∧
    key.kind.read? field.2 = some value ∧ d.admits key.kind value = true

theorem addParam_eq_ok (owner : String) (d : Domains) (params result : TypedParams)
    (field : String × Json) :
    addParam owner d params field = .ok result ↔
      ∃ key value, IsSetting d field key value ∧ result = params.set key value := by
  constructor
  · intro h
    unfold addParam at h
    split at h
    · cases h
    · next key spelling hname =>
      split at h
      · cases h
      · next value hread =>
        split at h
        · next hadmits =>
          cases h
          exact ⟨key, value, ⟨⟨spelling, hname⟩, hread, hadmits⟩, rfl⟩
        · cases h
  · intro h
    obtain ⟨key, value, ⟨⟨spelling, hname⟩, hread, hadmits⟩, rfl⟩ := h
    simp only [addParam, hname, hread, hadmits, if_true]

/-- Loaded parameters can be read, and the domains of their owner allow them. -/
theorem typedParams_allowed {owner : String} {d : Domains} {fields : Json.Fields}
    {params : TypedParams} (h : typedParams owner d fields = .ok params) :
    params.Readable ∧ d.Admits params := by
  refine foldlM_keeps (P := fun params => TypedParams.Readable params ∧ d.Admits params)
    (fun params field result hparams hadd => ?_) fields {} params ⟨?_, ?_⟩ h
  · obtain ⟨key, value, ⟨_, hread, hadmits⟩, rfl⟩ := (addParam_eq_ok ..).mp hadd
    exact ⟨ParamRecord.forall_get_set hparams.1 (ParamKind.readable_of_read? hread),
      ParamRecord.forall_get_set hparams.2 hadmits⟩
  · exact TypedParams.readable_empty
  · intro key value hget
    cases key <;> cases hget

/-! ### Operators -/

/-- The operator of an entry whose parameters are read. -/
def Entry.operator (entry : Entry) (defaults : TypedParams) (aliasOf : Option Alias) :
    Operator :=
  { id := entry.id, code := entry.code, label := entry.label, description := entry.description
    supported := entry.supported.getD ParamKey.all, defaults, domains := entry.domains
    compatibility := entry.compatibility, aliasOf }

theorem head?_missing {α : ParamKey → Type} (r : ParamRecord α) :
    r.missing.head? = none ↔ r.isComplete := by
  rw [List.head?_eq_none_iff, ParamRecord.isComplete, List.isEmpty_iff]

theorem loadAlias_eq_ok (entry : Entry) (aliasOf : Option Alias) :
    loadAlias entry = .ok aliasOf ↔
      (entry.kind = .base ∧ aliasOf = none) ∨
        (entry.kind = .derived ∧ ∃ mapping fixed, entry.mapsTo = some mapping ∧
          typedParams entry.id entry.domains mapping.fixed = .ok fixed ∧
          aliasOf = some { target := mapping.target, fixed }) := by
  unfold loadAlias
  cases entry.kind with
  | base => simp [eq_comm]
  | derived =>
    cases entry.mapsTo with
    | none => simp
    | some mapping =>
      show (typedParams _ _ _ >>= fun fixed => .ok (some _)) = _ ↔ _
      rw [bind_eq_ok]
      simp [eq_comm]

theorem loadOperator_eq_ok (entry : Entry) (position : Nat) (op : Operator) :
    loadOperator entry position = .ok op ↔
      (entry.id ≠ "" ∧ entry.code ≠ "" ∧ entry.arity = Operator.arity) ∧
        ∃ defaults aliasOf, typedParams entry.id entry.domains entry.defaults = .ok defaults ∧
          loadAlias entry = .ok aliasOf ∧ (entry.kind = .base → defaults.isComplete) ∧
          op = entry.operator defaults aliasOf := by
  unfold loadOperator
  by_cases hnames : entry.id = "" ∨ entry.code = ""
  · simp only [if_pos hnames]
    constructor
    · intro h
      cases h
    · intro h
      obtain ⟨⟨hid, hcode, -⟩, -⟩ := h
      exact absurd hnames (not_or.mpr ⟨hid, hcode⟩)
  · by_cases harity : entry.arity ≠ Operator.arity
    · simp only [if_neg hnames, if_pos harity]
      constructor
      · intro h
        cases h
      · intro h
        obtain ⟨⟨-, -, hsame⟩, -⟩ := h
        exact absurd hsame harity
    · simp only [if_neg hnames, if_neg harity, bind_eq_ok]
      have hnames := not_or.mp hnames
      constructor
      · intro h
        obtain ⟨defaults, hdefaults, aliasOf, halias, h⟩ := h
        refine ⟨⟨hnames.1, hnames.2, not_not.mp harity⟩, defaults, aliasOf, hdefaults, halias, ?_⟩
        split at h
        · split at h
          · cases h
          · next hmissing =>
            cases h
            refine ⟨fun _ => (head?_missing defaults).mp ?_, rfl⟩
            cases hhead : defaults.missing.head? with
            | none => rfl
            | some key => exact absurd hhead (hmissing key)
        · next hkind =>
          cases h
          exact ⟨fun hbase => absurd hbase hkind, rfl⟩
      · intro h
        obtain ⟨-, defaults, aliasOf, hdefaults, halias, hcomplete, rfl⟩ := h
        refine ⟨defaults, hdefaults, aliasOf, halias, ?_⟩
        split
        · next hkind =>
          rw [(head?_missing defaults).mpr (hcomplete hkind)]
          rfl
        · rfl

/-! ### The operators of a file -/

/-- No operator has the id or the code of another one. -/
def Distinct (ops : List Operator) : Prop :=
  (ops.map (·.id)).Nodup ∧ (ops.map (·.code)).Nodup

theorem Distinct.perm {ops others : List Operator} (h : Distinct ops) (hperm : ops.Perm others) :
    Distinct others :=
  ⟨(hperm.map _).nodup_iff.mp h.1, (hperm.map _).nodup_iff.mp h.2⟩

theorem addDistinct_eq_ok (seen result : List Operator) (op : Operator) :
    addDistinct seen op = .ok result ↔
      (op.id ∉ seen.map (·.id) ∧ op.code ∉ seen.map (·.code)) ∧ result = op :: seen := by
  have hid : seen.any (·.id == op.id) = true ↔ op.id ∈ seen.map (·.id) := by
    simp [List.any_eq_true]
  have hcode : seen.any (·.code == op.code) = true ↔ op.code ∈ seen.map (·.code) := by
    simp [List.any_eq_true]
  unfold addDistinct
  by_cases hmemId : op.id ∈ seen.map (·.id)
  · rw [if_pos (hid.mpr hmemId)]
    simp [hmemId]
  · rw [if_neg (mt hid.mp hmemId)]
    by_cases hmemCode : op.code ∈ seen.map (·.code)
    · rw [if_pos (hcode.mpr hmemCode)]
      simp [hmemCode]
    · rw [if_neg (mt hcode.mp hmemCode)]
      simp [hmemId, hmemCode, eq_comm]

/-- Taking in one operator after the other succeeds when all of them are distinct. -/
theorem foldlM_addDistinct_eq_ok (ops seen result : List Operator) (hseen : Distinct seen) :
    ops.foldlM addDistinct seen = .ok result ↔
      Distinct (ops.reverse ++ seen) ∧ result = ops.reverse ++ seen := by
  induction ops generalizing seen with
  | nil =>
    show Except.ok seen = .ok result ↔ _
    simp [hseen, eq_comm]
  | cons op rest ih =>
    rw [List.foldlM_cons, bind_eq_ok, List.reverse_cons, List.append_assoc, List.singleton_append]
    constructor
    · intro h
      obtain ⟨next, hnext, h⟩ := h
      obtain ⟨⟨hid, hcode⟩, rfl⟩ := (addDistinct_eq_ok ..).mp hnext
      exact (ih (op :: seen)
        ⟨List.nodup_cons.mpr ⟨hid, hseen.1⟩, List.nodup_cons.mpr ⟨hcode, hseen.2⟩⟩).mp h
    · intro h
      obtain ⟨hdistinct, rfl⟩ := h
      have htail : Distinct (op :: seen) := by
        have hsuffix := List.suffix_append rest.reverse (op :: seen)
        exact ⟨hdistinct.1.sublist (hsuffix.sublist.map _),
          hdistinct.2.sublist (hsuffix.sublist.map _)⟩
      refine ⟨op :: seen, (addDistinct_eq_ok ..).mpr ⟨⟨?_, ?_⟩, rfl⟩,
        (ih _ htail).mpr ⟨hdistinct, rfl⟩⟩
      · exact (List.nodup_cons.mp htail.1).1
      · exact (List.nodup_cons.mp htail.2).1

theorem checkAlias_eq_ok (c : Catalog) (op : Operator) :
    checkAlias c op = .ok () ↔
      ∀ link, op.aliasOf = some link →
        ∃ target, c.byId? link.target = some target ∧ target.aliasOf = none := by
  unfold checkAlias
  cases op.aliasOf with
  | none => simp
  | some link =>
    cases htarget : c.byId? link.target with
    | none => simp [htarget]
    | some target => cases halias : target.aliasOf <;> simp [htarget, halias, Operator.isAlias]

theorem load_eq_ok (file : File) (c : Catalog) :
    file.load = .ok c ↔
      ∃ defaults loaded, typedParams "parameterDefaults" {} file.parameterDefaults = .ok defaults ∧
        defaults.isComplete ∧
        List.Forall₂ (fun entry op => loadOperator entry.1 entry.2 = .ok op)
          file.operators.zipIdx loaded ∧
        c = { schemaVersion := file.schemaVersion, defaults
              operators := sortOn Operator.id loaded } ∧
        Distinct c.operators ∧ ∀ op ∈ c.operators, checkAlias c op = .ok () := by
  unfold load
  simp only [bind_eq_ok]
  have hnil : Distinct [] := ⟨.nil, .nil⟩
  constructor
  · intro h
    obtain ⟨defaults, hdefaults, h⟩ := h
    cases hhead : defaults.missing.head? with
    | some key =>
      rw [hhead] at h
      cases h
    | none =>
      rw [hhead] at h
      simp only [bind_eq_ok] at h
      obtain ⟨loaded, hloaded, _, hdistinct, ⟨⟩, haliases, h⟩ := h
      cases h
      refine ⟨defaults, loaded, hdefaults, (head?_missing defaults).mp hhead,
        (mapM_eq_ok _ _ _).mp hloaded, rfl, ?_, (forM_eq_ok _ _).mp haliases⟩
      have hall := ((foldlM_addDistinct_eq_ok _ _ _ hnil).mp hdistinct).1
      rw [List.append_nil] at hall
      exact hall.perm (List.reverse_perm _)
  · intro h
    obtain ⟨defaults, loaded, hdefaults, hcomplete, hloaded, rfl, hdistinct, haliases⟩ := h
    refine ⟨defaults, hdefaults, ?_⟩
    rw [(head?_missing defaults).mpr hcomplete]
    simp only [bind_eq_ok]
    refine ⟨loaded, (mapM_eq_ok _ _ _).mpr hloaded, _,
      (foldlM_addDistinct_eq_ok _ _ _ hnil).mpr ⟨?_, rfl⟩, (), (forM_eq_ok _ _).mpr haliases, rfl⟩
    rw [List.append_nil]
    exact hdistinct.perm (List.reverse_perm _).symm

end Catalog.File
end EventPattern
