import EventPattern.Catalog.Listing
import EventPattern.Compilation.Run
import EventPattern.Proofs.Catalog.WellFormed
import Mathlib.Data.List.Perm.Basic

/-! The order of the entries in a catalog file.

Where an entry stands shows in nothing but a fault of it. Each entry loads to the same operator at
any position (`loadOperator_position`), the operators are put into the order of their ids, and as
no two of them share an id there is one such order only. So a file whose entries are moved about
loads to the very same catalog or, for whatever fault comes first, to none (`load_of_perm`). -/
namespace EventPattern.Catalog

namespace File

variable {file : File} {entries others : List Entry}

/-- The file with other entries. -/
def withEntries (file : File) (entries : List Entry) : File := { file with operators := entries }

/-- A position is named in a fault only. -/
theorem loadOperator_position (entry : Entry) (position other : Nat) (op : Operator) :
    loadOperator entry position = .ok op ↔ loadOperator entry other = .ok op := by
  rw [loadOperator_eq_ok, loadOperator_eq_ok]

theorem forall₂_loaded_iff {start : Nat} {loaded : List Operator} :
    List.Forall₂ (fun entry op => loadOperator entry.1 entry.2 = .ok op) (entries.zipIdx start)
        loaded ↔
      List.Forall₂ (fun entry op => loadOperator entry 0 = .ok op) entries loaded := by
  conv_rhs => rw [← List.zipIdx_map_fst start entries, List.forall₂_map_left_iff]
  simp only [loadOperator_position _ _ 0]

/-- Entries in another order load to operators in another order. -/
theorem exists_loaded_of_perm (h : entries.Perm others) {loaded : List Operator}
    (hloaded : List.Forall₂ (fun entry op => loadOperator entry.1 entry.2 = .ok op)
      entries.zipIdx loaded) :
    ∃ moved, List.Forall₂ (fun entry op => loadOperator entry.1 entry.2 = .ok op)
      others.zipIdx moved ∧ loaded.Perm moved := by
  obtain ⟨moved, hmoved, hperm⟩ := List.perm_comp_forall₂ h.symm (forall₂_loaded_iff.mp hloaded)
  exact ⟨moved, forall₂_loaded_iff.mpr hmoved, hperm.symm⟩

/-- **A file loads to the same catalog with its entries in another order.** -/
theorem load_of_perm (h : file.operators.Perm entries) {c : Catalog} (hload : file.load = .ok c) :
    (file.withEntries entries).load = .ok c := by
  obtain ⟨defaults, loaded, hdefaults, hcomplete, hloaded, rfl, hdistinct, haliases⟩ :=
    (load_eq_ok ..).mp hload
  obtain ⟨moved, hmoved, hperm⟩ := exists_loaded_of_perm h hloaded
  have hids := hdistinct.perm (sortOn_perm Operator.id loaded)
  have hsame : sortOn Operator.id loaded = sortOn Operator.id moved :=
    sortOn_eq_of_perm Operator.id hperm hids.1
  rw [hsame] at hdistinct haliases ⊢
  exact (load_eq_ok ..).mpr
    ⟨defaults, moved, hdefaults, hcomplete, hmoved, rfl, hdistinct, haliases⟩

end File

/-- No query tells the two catalogs apart, nor do they differ when they are written down or used. -/
structure Alike (c other : Catalog) : Prop where
  defaults : other.defaults = c.defaults
  lookup : ∀ reference, other.lookup? reference = c.lookup? reference
  byId : ∀ id, other.byId? id = c.byId? id
  byCode : ∀ code, other.byCode? code = c.byCode? code
  aliasBase : ∀ id, other.aliasBase? id = c.aliasBase? id
  base : ∀ op, other.base? op = c.base? op
  defaultsOf : ∀ op, other.defaultsOf op = c.defaultsOf op
  canonicalJson : other.canonicalJson = c.canonicalJson
  fingerprint : other.fingerprint = c.fingerprint
  listing : other.listing = c.listing
  compiles : ∀ input, compile other input = compile c input

theorem Alike.refl (c : Catalog) : c.Alike c :=
  ⟨rfl, fun _ => rfl, fun _ => rfl, fun _ => rfl, fun _ => rfl, fun _ => rfl, fun _ => rfl, rfl,
    rfl, rfl, fun _ => rfl⟩

/-- **The order of a catalog file does not show.** With its entries in another order a file loads
if and only if it did before, whatever the faults in it and whichever of them comes first; and then
the catalog is the same as before, in all that it answers, is written as and compiles to. -/
theorem entry_order_forgotten (file : File) (entries : List File.Entry)
    (h : file.operators.Perm entries) :
    ((∃ c, file.load = .ok c) ↔ ∃ c, (file.withEntries entries).load = .ok c) ∧
      ∀ c other, file.load = .ok c → (file.withEntries entries).load = .ok other →
        other = c ∧ c.Alike other := by
  refine ⟨⟨fun hloads => ?_, fun hloads => ?_⟩, fun c other hc hother => ?_⟩
  · obtain ⟨c, hc⟩ := hloads
    exact ⟨c, File.load_of_perm h hc⟩
  · obtain ⟨c, hc⟩ := hloads
    have hback : (file.withEntries entries).operators.Perm file.operators := h.symm
    exact ⟨c, File.load_of_perm hback hc⟩
  · have hsame := (File.load_of_perm h hc).symm.trans hother
    cases hsame
    exact ⟨rfl, Alike.refl c⟩

/-- The embedded file from back to front, so that each alias stands before its base operator. -/
theorem entry_order_of_embedded :
    Embedded.file.operators.Perm Embedded.file.operators.reverse ∧
      Embedded.file.load = .ok embedded ∧
      ∃ c, (Embedded.file.withEntries Embedded.file.operators.reverse).load = .ok c ∧
        embedded.Alike c := by
  have hperm := (List.reverse_perm Embedded.file.operators).symm
  obtain ⟨hloads, hsame⟩ := entry_order_forgotten Embedded.file _ hperm
  obtain ⟨c, hc⟩ := hloads.mp ⟨embedded, load_embedded⟩
  exact ⟨hperm, load_embedded, c, hc, (hsame embedded c load_embedded hc).2⟩

end EventPattern.Catalog
