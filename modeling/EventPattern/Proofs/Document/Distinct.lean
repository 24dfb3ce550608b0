import EventPattern.Document.Grammar
import EventPattern.Proofs.Document.Gathering
import EventPattern.Proofs.Document.RepeatedIds
import EventPattern.Proofs.Issue
import EventPattern.Proofs.Json.Keys
import EventPattern.Proofs.Location
import Mathlib.Data.List.Sigma

/-! No issue of a document is found twice.

Issues are not compared when they are gathered, so that no two are the same is due to the checks
(`Separates`). Different fields and different items are checked at paths that are apart, by
`Location.eq_of_beneath_keyText` and `Location.eq_of_beneath_indexText`, since no key that is
asked for has dots or brackets (`Spread.tidy`). What is left are the keys that were not asked for,
which may look like paths: but what is said of an unknown field names it, so the object that it
was found in is seen of its path. From the checks of single values up this leads to
`nodup_of_check`. -/
namespace EventPattern

open Location (Beneath IsPlain beneath_keyText beneath_indexText)

/-! ### Problems of a scope -/

/-- An unknown field is one of an object within the scope, and ids are repeated only in a scope
that has all of the intervals. -/
def Problem.Fits (scope place : Location) : Problem → Prop
  | unknownField name =>
    ∃ parent : Location, Beneath scope.text parent.text ∧ place = .key parent name
  | duplicateInterval _ => Beneath scope.text (Location.key .root "intervals").text
  | _ => True

theorem Problem.Fits.mono {outer scope place : Location} {problem : Problem}
    (h : problem.Fits scope place) (houter : Beneath outer.text scope.text) :
    problem.Fits outer place := by
  cases problem with
  | unknownField name =>
    obtain ⟨parent, hparent, hplace⟩ := h
    exact ⟨parent, houter.trans hparent, hplace⟩
  | duplicateInterval id => exact houter.trans h
  | _ => trivial

/-- No other problem reads like an unknown field. -/
theorem Problem.eq_unknownField {name : String} {problem : Problem}
    (hcode : (unknownField name).code = problem.code)
    (hmessage : (unknownField name).message = problem.message) : problem = unknownField name := by
  cases problem with
  | unknownField other =>
    have hquoted : "unknown field '" ++ name = "unknown field '" ++ other :=
      (String.append_left_inj "'").mp hmessage
    rw [(String.append_right_inj _).mp hquoted]
  | _ => simp [code] at hcode

theorem Problem.eq_duplicateInterval (id : String) {problem : Problem}
    (hcode : (duplicateInterval id).code = problem.code) :
    ∃ other, problem = duplicateInterval other := by
  cases problem with
  | duplicateInterval other => exact ⟨other, rfl⟩
  | _ => simp [code] at hcode

/-- The finding is made within the scope. -/
structure Finding.LiesIn (scope : Location) (f : Finding) : Prop where
  beneath : Beneath scope.text f.place.text
  fits : f.problem.Fits scope f.place

theorem Finding.LiesIn.mono {outer scope : Location} {f : Finding} (h : f.LiesIn scope)
    (houter : Beneath outer.text scope.text) : f.LiesIn outer :=
  ⟨houter.trans h.beneath, h.fits.mono houter⟩

theorem Finding.path_eq {f g : Finding} (h : f.issue = g.issue) : f.place.text = g.place.text :=
  congrArg Issue.path h

namespace Document

open Json (Fields)

variable {α β : Type}

/-! ### Findings without repetition -/

/-- Everything that was found lies in the scope, and each is an issue of its own. -/
structure Tidy (scope : Location) (findings : List Finding) : Prop where
  distinct : (findings.map Finding.issue).Nodup
  lies : ∀ f ∈ findings, f.LiesIn scope

section Findings
variable {scope place : Location} {a b : List Finding}

theorem tidy_nil (scope : Location) : Tidy scope [] := ⟨.nil, nofun⟩

theorem tidy_singleton {f : Finding} (h : f.LiesIn scope) : Tidy scope [f] :=
  ⟨List.pairwise_singleton _ _, List.forall_mem_singleton.mpr h⟩

/-- A check that fails at its place, with a problem that may be anywhere. -/
theorem tidy_fail {problem : Problem} (h : problem.Fits scope scope) :
    Tidy scope (Checked.fail scope problem : Checked α).findings :=
  tidy_singleton ⟨.refl _, h⟩

theorem Tidy.mono {outer : Location} (h : Tidy scope a) (houter : Beneath outer.text scope.text) :
    Tidy outer a :=
  ⟨h.distinct, fun f hf => (h.lies f hf).mono houter⟩

theorem Tidy.append (ha : Tidy scope a) (hb : Tidy scope b)
    (hapart : ∀ f ∈ a, ∀ g ∈ b, f.issue ≠ g.issue) : Tidy scope (a ++ b) := by
  refine ⟨?_, List.forall_mem_append.mpr ⟨ha.lies, hb.lies⟩⟩
  rw [List.map_append, List.nodup_append]
  refine ⟨ha.distinct, hb.distinct, fun issue hissue other hother => ?_⟩
  obtain ⟨f, hf, rfl⟩ := List.mem_map.mp hissue
  obtain ⟨g, hg, rfl⟩ := List.mem_map.mp hother
  exact hapart f hf g hg

theorem tidy_flatMap {items : List β} {found : β → List Finding}
    (h : ∀ item ∈ items, Tidy scope (found item))
    (hapart : items.Pairwise fun x y => ∀ f ∈ found x, ∀ g ∈ found y, f.issue ≠ g.issue) :
    Tidy scope (items.flatMap found) := by
  induction hapart with
  | nil => exact tidy_nil scope
  | @cons item rest hitem _ ih =>
    obtain ⟨hfirst, hrest⟩ := List.forall_mem_cons.mp h
    rw [List.flatMap_cons]
    refine hfirst.append (ih hrest) fun f hf g hg => ?_
    obtain ⟨other, hother, hg⟩ := List.mem_flatMap.mp hg
    exact hitem other hother f hf g hg

theorem Tidy.andThen {outcome : Checked α} {next : α → Checked β}
    (h : Tidy scope outcome.findings)
    (hnext : ∀ value, outcome = .ok value → Tidy scope (next value).findings) :
    Tidy scope (outcome.andThen next).findings := by
  cases outcome with
  | ok value => exact hnext value rfl
  | failed first more => exact h

/-! ### Field by field -/

/-- What was found in the fields of an object, in one field after the other. -/
inductive Spread (place : Location) : List String → List Finding → Prop where
  | nil : Spread place [] []
  | field {key : String} {keys : List String} {found rest : List Finding}
      (here : Tidy (.key place key) found) (others : Spread place keys rest) :
      Spread place (key :: keys) (found ++ rest)

variable {keys others : List String}

theorem Tidy.spread {key : String} (h : Tidy (.key place key) a) : Spread place [key] a :=
  List.append_nil a ▸ .field h .nil

theorem Spread.append (ha : Spread place keys a) (hb : Spread place others b) :
    Spread place (keys ++ others) (a ++ b) := by
  induction ha with
  | nil => exact hb
  | field here _ ih =>
    rw [List.append_assoc]
    exact .field here ih

theorem Spread.fmap {outcome : Checked α} (h : Spread place keys outcome.findings) (f : α → β) :
    Spread place keys (f <$> outcome).findings := by
  rw [Checked.findings_fmap]
  exact h

theorem Spread.both {first : Checked α} {second : Checked β}
    (hfirst : Spread place keys first.findings) (hsecond : Spread place others second.findings) :
    Spread place (keys ++ others) (first.both second).findings := by
  rw [Checked.findings_both]
  exact hfirst.append hsecond

theorem Spread.seq {first : Checked (α → β)} {second : Checked α}
    (hfirst : Spread place keys first.findings) (hsecond : Spread place others second.findings) :
    Spread place (keys ++ others) (first <*> second).findings := by
  rw [Checked.findings_seq]
  exact hfirst.append hsecond

theorem Spread.lies (h : Spread place keys a) :
    ∀ f ∈ a, ∃ key ∈ keys, f.LiesIn (.key place key) := by
  induction h with
  | nil => nofun
  | field here _ ih =>
    refine List.forall_mem_append.mpr ⟨fun f hf => ?_, fun f hf => ?_⟩
    · exact ⟨_, List.mem_cons_self .., here.lies f hf⟩
    · obtain ⟨key, hkey, hlies⟩ := ih f hf
      exact ⟨key, List.mem_cons_of_mem _ hkey, hlies⟩

/-- **Fields of plain names are apart.** -/
theorem Spread.tidy (h : Spread place keys a) (hdistinct : keys.Nodup)
    (hplain : ∀ key ∈ keys, IsPlain key) : Tidy place a := by
  induction h with
  | nil => exact tidy_nil place
  | @field key keys found rest here others ih =>
    obtain ⟨hkey, hkeys⟩ := List.nodup_cons.mp hdistinct
    obtain ⟨hplainKey, hplainKeys⟩ := List.forall_mem_cons.mp hplain
    have hin := beneath_keyText place.text key
    refine (here.mono hin).append (ih hkeys hplainKeys) fun f hf g hg hsame => hkey ?_
    obtain ⟨other, hother, hlies⟩ := others.lies g hg
    have hbeneath := (here.lies f hf).beneath
    rw [Finding.path_eq hsame] at hbeneath
    rwa [Location.eq_of_beneath_keyText hplainKey (hplainKeys other hother) hbeneath
      hlies.beneath]

end Findings

/-! ### Values of any shape -/

/-- The check finds nothing twice, in a value whose objects have each key once. -/
def Separates (check : Check α) : Prop :=
  ∀ place json, json.keysOnce = true → Tidy place (check place json).findings

section Values
variable {place : Location} {fields : Fields}

/-- Unknown fields are told apart by their names. -/
theorem unknownFields_tidy (hkeys : (fields.map (·.1)).Nodup) (allowed : List String) :
    Tidy place (unknownFields place allowed fields).findings := by
  rw [unknownFields, Checked.findings_report]
  constructor
  · rw [List.map_map]
    refine (hkeys.filter _).map fun name other hsame => ?_
    exact Location.keyText_right_inj (congrArg Issue.path hsame)
  · intro f hf
    obtain ⟨name, -, rfl⟩ := List.mem_map.mp hf
    exact ⟨beneath_keyText _ _, place, .refl _, rfl⟩

/-- What is found in a field is never an unknown field of the object itself. -/
theorem fields_tidy {keys : List String} {outcome : Checked α} (allowed : List String)
    (hobject : (Json.object fields).keysOnce = true)
    (hkeys : keys.Nodup ∧ ∀ key ∈ keys, IsPlain key) (h : Spread place keys outcome.findings) :
    Tidy place ((unknownFields place allowed fields).also outcome).findings := by
  have hunknown : Tidy place (unknownFields place allowed fields).findings :=
    unknownFields_tidy ((Json.keysOnce_object _).mp hobject).1 allowed
  rw [Checked.findings_also]
  refine hunknown.append (h.tidy hkeys.1 hkeys.2) fun f hf g hg hsame => ?_
  rw [unknownFields, Checked.findings_report] at hf
  obtain ⟨name, -, rfl⟩ := List.mem_map.mp hf
  have hproblem := Problem.eq_unknownField (congrArg Issue.code hsame)
    (congrArg Issue.message hsame)
  obtain ⟨key, -, hlies⟩ := h.lies g hg
  -- The field that `g` does not know has the same name, so it is in an object of the same path.
  have hfits := hlies.fits
  rw [hproblem] at hfits
  obtain ⟨parent, hparent, hplace⟩ := hfits
  have hpath := Finding.path_eq hsame
  rw [hplace] at hpath
  exact hparent.ne_of_key (Location.keyText_left_inj hpath).symm

theorem anyObject_separates : Separates anyObject := by
  intro place json _
  cases json <;> first
    | exact tidy_nil place
    | exact tidy_fail trivial

theorem object_separates {allowed keys : List String} {read : Location → Fields → Checked α}
    (hkeys : keys.Nodup ∧ ∀ key ∈ keys, IsPlain key)
    (h : ∀ place fields, (Json.object fields).keysOnce = true →
      Spread place keys (read place fields).findings) : Separates (object allowed read) := by
  intro place json hjson
  cases json <;> first
    | exact fields_tidy allowed hjson hkeys (h place _ hjson)
    | exact tidy_fail trivial

variable (hobject : (Json.object fields).keysOnce = true)
include hobject

theorem required_tidy {check : Check α} (h : Separates check) (place : Location) (key : String) :
    Tidy (.key place key) (required place fields key check).findings := by
  unfold required
  split
  · next hget => exact h _ _ (Json.keysOnce_of_get? hobject hget)
  · exact tidy_fail trivial

theorem required_spread {check : Check α} (h : Separates check) (place : Location)
    (key : String) : Spread place [key] (required place fields key check).findings :=
  (required_tidy hobject h place key).spread

theorem defaulting_spread {check : Check α} (h : Separates check) (place : Location)
    (key : String) (default : α) :
    Spread place [key] (defaulting place fields key default check).findings := by
  refine Tidy.spread ?_
  unfold defaulting
  split
  · next hget => exact h _ _ (Json.keysOnce_of_get? hobject hget)
  · exact tidy_nil _

theorem optional_spread {check : Check α} (h : Separates check) (place : Location)
    (key : String) : Spread place [key] (optional place fields key check).findings :=
  defaulting_spread hobject (fun place json hjson => by
    rw [Checked.findings_map]
    exact h place json hjson) place key none

end Values

/-- A list has nothing wrong but that it is none, or what is wrong with its items. -/
theorem list_lies {check : Check α} (h : Separates check) {place : Location} {json : Json}
    (hjson : json.keysOnce = true) {f : Finding} (hf : f ∈ (list check place json).findings) :
    f.problem = .notAnArray ∨ ∃ i, f.LiesIn (.index place i) := by
  cases json with
  | array items =>
    rw [list, Checked.findings_all, List.flatMap_map] at hf
    obtain ⟨⟨item, i⟩, hitem, hf⟩ := List.mem_flatMap.mp hf
    have hkeys := (Json.keysOnce_array items).mp hjson item (List.fst_mem_of_mem_zipIdx hitem)
    exact .inr ⟨i, (h _ item hkeys).lies f hf⟩
  | _ =>
    rw [List.mem_singleton.mp hf]
    exact .inl rfl

theorem list_separates {check : Check α} (h : Separates check) : Separates (list check) := by
  intro place json hjson
  cases json with
  | array items =>
    have hitem : ∀ entry ∈ items.zipIdx, Tidy (.index place entry.2)
        (check (.index place entry.2) entry.1).findings := fun entry hentry =>
      h _ _ ((Json.keysOnce_array items).mp hjson _ (List.fst_mem_of_mem_zipIdx hentry))
    rw [list, Checked.findings_all, List.flatMap_map]
    refine tidy_flatMap (fun entry hentry => (hitem entry hentry).mono (beneath_indexText _ _)) ?_
    have hindices := List.pairwise_map.mp (List.nodup_zipIdx_map_snd items)
    refine hindices.imp_of_mem fun hx hy hne f hf g hg hsame => hne ?_
    have hbeneath := ((hitem _ hx).lies f hf).beneath
    rw [Finding.path_eq hsame] at hbeneath
    exact Location.eq_of_beneath_indexText hbeneath ((hitem _ hy).lies g hg).beneath
  | _ => exact tidy_fail trivial

theorem string_separates : Separates string := by
  intro place json _
  cases json <;> first
    | exact tidy_nil place
    | exact tidy_fail trivial

theorem nonEmpty_separates (what : String) : Separates (nonEmpty what) := by
  intro place json hjson
  refine (string_separates place json hjson).andThen fun text _ => ?_
  split
  · exact tidy_fail trivial
  · exact tidy_nil place

theorem identifier_separates : Separates identifier := nonEmpty_separates "id"

section Parts
variable {place : Location} {fields : Fields}

/-! ### Intervals -/

theorem tick_separates : Separates tick := by
  intro place json _
  unfold tick
  split
  · split
    · exact tidy_nil place
    · split
      · exact tidy_fail trivial
      · split
        · exact tidy_fail trivial
        · exact tidy_nil place
  · exact tidy_fail trivial

/-- An end before the start is found only where there is nothing else to be found. -/
theorem span_spread (hobject : (Json.object fields).keysOnce = true) (place : Location) :
    Spread place ["start", "end"] (span place fields).findings := by
  have hboth := (required_spread hobject tick_separates place "start").both
    (required_spread hobject tick_separates place "end")
  unfold span
  cases hticks : (required place fields "start" tick).both (required place fields "end" tick) with
  | failed first more =>
    rw [hticks] at hboth
    exact hboth
  | ok ticks =>
    have hinverted : Tidy (.key place "end") [⟨.key place "end", .invertedInterval⟩] :=
      tidy_singleton ⟨.refl _, trivial⟩
    show Spread place _ (ite _ _ _ : Checked (Tick × Tick)).findings
    split
    · exact .field (tidy_nil _) hinverted.spread
    · exact .field (tidy_nil _) (.field (tidy_nil _) .nil)

theorem predicate_separates : Separates predicate :=
  object_separates (by decide) fun place _ hobject =>
    ((required_spread hobject (nonEmpty_separates _) place "name").fmap _).seq
      (defaulting_spread hobject (list_separates (nonEmpty_separates _)) place "args" [])

theorem interval_separates : Separates interval :=
  object_separates (by decide) fun place _ hobject =>
    ((((required_spread hobject identifier_separates place "id").fmap _).seq
      (span_spread hobject place)).seq
      (required_spread hobject predicate_separates place "predicate")).seq
      (optional_spread hobject (nonEmpty_separates _) place "label")

/-- An item that repeats an id is found once. -/
theorem repeatedIds_tidy (hplace : Beneath place.text (Location.key .root "intervals").text)
    (seen : List String) (entries : List (Json × Nat)) (hpositions : (entries.map (·.2)).Nodup) :
    Tidy place (repeatedIds place seen entries) := by
  induction entries generalizing seen with
  | nil => exact tidy_nil place
  | cons entry rest ih =>
    obtain ⟨hposition, hrest⟩ := List.nodup_cons.mp hpositions
    have hhere : Tidy place (repeatedAt place seen entry) := by
      have hin : Beneath place.text (Location.key (.index place entry.2) "id").text :=
        (beneath_indexText _ entry.2).trans (beneath_keyText _ "id")
      unfold repeatedAt
      split
      · exact tidy_nil place
      · split
        · exact tidy_singleton ⟨hin, hplace⟩
        · exact tidy_nil place
    rw [repeatedIds_cons]
    refine hhere.append (ih _ hrest) fun f hf g hg hsame => ?_
    obtain ⟨_, -, rfl⟩ := mem_repeatedAt hf
    obtain ⟨other, hother, _, -, rfl⟩ := mem_repeatedIds hg
    have hitem : (Location.index place entry.2).text = (Location.index place other.2).text :=
      Location.keyText_left_inj (Finding.path_eq hsame)
    have hindex : other.2 = entry.2 := (Location.indexText_right_inj hitem).symm
    exact hposition (List.mem_map.mpr ⟨other, hother, hindex⟩)

/-- Only the list of intervals itself is searched for repeated ids. -/
theorem intervals_spread (hobject : (Json.object fields).keysOnce = true) :
    Spread .root ["intervals"] (intervals fields).findings := by
  have hindices := List.nodup_zipIdx_map_snd ((rawIntervals? fields).getD [])
  have hitems := required_tidy hobject (list_separates interval_separates) .root "intervals"
  refine Tidy.spread ?_
  rw [intervals, Checked.findings_also, Checked.findings_report]
  refine (repeatedIds_tidy (.refl _) [] _ hindices).append hitems fun f hf g hg hsame => ?_
  obtain ⟨_, -, id, -, rfl⟩ := mem_repeatedIds hf
  obtain ⟨other, hother⟩ := Problem.eq_duplicateInterval id (congrArg Issue.code hsame)
  unfold required at hg
  split at hg
  · next hget =>
    rcases list_lies interval_separates (Json.keysOnce_of_get? hobject hget) hg with
      hproblem | ⟨i, hlies⟩
    · rw [hother] at hproblem
      cases hproblem
    · -- A single interval does not have all of them in it.
      have hfits := hlies.fits
      rw [hother] at hfits
      exact Beneath.ne_of_index hfits rfl
  · rw [List.mem_singleton.mp hg] at hother
    cases hother

/-! ### Parameters -/

/-- At most one problem, at the place itself. -/
def AtMostOne (place : Location) (findings : List Finding) : Prop :=
  findings = [] ∨ ∃ problem : Problem, findings = [⟨place, problem⟩] ∧ problem.Fits place place

theorem AtMostOne.tidy {findings : List Finding} (h : AtMostOne place findings) :
    Tidy place findings := by
  rcases h with rfl | ⟨problem, rfl, hfits⟩
  · exact tidy_nil place
  · exact tidy_singleton ⟨.refl _, hfits⟩

theorem AtMostOne.place_eq {findings : List Finding} (h : AtMostOne place findings) :
    ∀ f ∈ findings, f.place = place := by
  rcases h with rfl | ⟨problem, rfl, -⟩
  · nofun
  · exact List.forall_mem_singleton.mpr rfl

theorem paramValue_atMostOne (kind : ParamKind) (place : Location) (raw : Json) :
    AtMostOne place (paramValue kind place raw).findings := by
  cases kind with
  | comparator =>
    simp only [paramValue]
    split
    · exact .inl rfl
    · exact .inr ⟨_, rfl, trivial⟩
  | threshold =>
    simp only [paramValue]
    split
    · exact .inl rfl
    · split
      · exact .inr ⟨_, rfl, trivial⟩
      · exact .inr ⟨_, rfl, trivial⟩
  | amount =>
    simp only [paramValue]
    split
    · exact .inl rfl
    · split
      · exact .inr ⟨_, rfl, trivial⟩
      · exact .inr ⟨_, rfl, trivial⟩

theorem paramField_atMostOne (place : Location) (field : String × Json) :
    AtMostOne (.key place field.1) (paramField place field).findings := by
  unfold paramField
  split
  · exact .inr ⟨_, rfl, trivial⟩
  · exact paramValue_atMostOne _ _ _

/-- The names of parameters may be anything, but nothing is looked for beneath them. -/
theorem params_separates : Separates params := by
  intro place json hjson
  unfold params
  split
  · exact tidy_nil place
  · refine (anyObject_separates place json hjson).andThen fun fields hfields => ?_
    cases json <;> cases hfields
    have hkeys := List.pairwise_map.mp ((Json.keysOnce_object fields).mp hjson).1
    have hfield := paramField_atMostOne place
    rw [Checked.findings_map, Checked.findings_all, List.flatMap_map]
    refine tidy_flatMap (fun field _ => (hfield field).tidy.mono (beneath_keyText _ _)) ?_
    refine hkeys.imp fun hne f hf g hg hsame => hne ?_
    have hpath := Finding.path_eq hsame
    rw [(hfield _).place_eq f hf, (hfield _).place_eq g hg] at hpath
    exact Location.keyText_right_inj hpath

theorem paramKey_separates : Separates paramKey := by
  intro place json hjson
  refine (string_separates place json hjson).andThen fun name _ => ?_
  split
  · exact tidy_nil place
  · exact tidy_fail trivial

/-! ### Relations -/

variable (known : Option (List String))

theorem endpoint_separates : Separates (endpoint known) := by
  intro place json hjson
  refine (identifier_separates place json hjson).andThen fun id _ => ?_
  split
  · exact tidy_nil place
  · split
    · exact tidy_nil place
    · exact tidy_fail trivial

theorem legacyRelation_separates : Separates (legacyRelation known) :=
  object_separates (by decide) fun place _ hobject =>
    (((((((required_spread hobject identifier_separates place "id").fmap _).seq
      (required_spread hobject (endpoint_separates known) place "leftIntervalId")).seq
      (required_spread hobject (endpoint_separates known) place "rightIntervalId")).seq
      (required_spread hobject (nonEmpty_separates _) place "operatorKey")).seq
      (defaulting_spread hobject params_separates place "params" none)).seq
      (optional_spread hobject (nonEmpty_separates _) place "allenAlias")).seq
      (defaulting_spread hobject (list_separates identifier_separates) place "constraintIds" [])

theorem canonicalRelation_separates : Separates (canonicalRelation known) :=
  object_separates (by decide) fun place _ hobject =>
    (((((((required_spread hobject identifier_separates place "id").fmap _).seq
      (required_spread hobject (endpoint_separates known) place "left")).seq
      (required_spread hobject (endpoint_separates known) place "right")).seq
      (required_spread hobject (nonEmpty_separates _) place "operatorId")).seq
      (defaulting_spread hobject params_separates place "params" none)).seq
      (defaulting_spread hobject (list_separates identifier_separates) place "constraintIds"
        [])).seq
      (optional_spread hobject (nonEmpty_separates _) place "label")

/-! ### Constraints -/

theorem legacyConstraint_separates : Separates legacyConstraint :=
  object_separates (by decide) fun place _ hobject =>
    (((required_spread hobject identifier_separates place "id").fmap _).seq
      (required_spread hobject (nonEmpty_separates _) place "kind")).seq
      (defaulting_spread hobject anyObject_separates place "payload" [])

/-- The value is looked at only where there is a parameter to read it for. -/
theorem paramAssignment_spread (hobject : (Json.object fields).keysOnce = true)
    (place : Location) :
    Spread place ["param", "value"] (paramAssignment place fields).findings := by
  have hany : Separates fun _ value => Checked.ok value := fun place _ _ => tidy_nil place
  have hboth := (required_spread hobject paramKey_separates place "param").both
    (required_spread hobject hany place "value")
  unfold paramAssignment
  cases hpair : (required place fields "param" paramKey).both
      (required place fields "value" fun _ value => Checked.ok value) with
  | failed first more =>
    rw [hpair] at hboth
    exact hboth
  | ok pair =>
    show Spread place _ ((paramValue pair.1.kind _ pair.2).map fun _ => pair).findings
    rw [Checked.findings_map]
    exact .field (tidy_nil _) (paramValue_atMostOne _ _ _).tidy.spread

theorem relationParam_separates : Separates relationParam :=
  object_separates (by decide) fun place _ hobject =>
    (((required_spread hobject identifier_separates place "id").fmap _).seq
      (required_spread hobject identifier_separates place "relationId")).seq
      (paramAssignment_spread hobject place)

theorem note_separates : Separates note :=
  object_separates (by decide) fun place _ hobject =>
    ((required_spread hobject identifier_separates place "id").fmap _).seq
      (required_spread hobject string_separates place "text")

theorem canonicalConstraint_separates : Separates canonicalConstraint := by
  intro place json hjson
  refine (anyObject_separates place json hjson).andThen fun fields hfields => ?_
  cases json <;> cases hfields
  have hkind := required_tidy hjson string_separates place "kind"
  refine (hkind.mono (beneath_keyText _ _)).andThen fun kind _ => ?_
  split
  · exact relationParam_separates place _ hjson
  · split
    · exact note_separates place _ hjson
    · exact tidy_singleton ⟨beneath_keyText _ _, trivial⟩

/-! ### Documents -/

theorem selection_separates : Separates selection :=
  object_separates (by decide) fun place _ hobject =>
    (required_spread hobject (list_separates identifier_separates) place "constraintIds").fmap _

theorem legacyConstraints_separates : Separates (legacyConstraints known) :=
  object_separates (by decide) fun place _ hobject =>
    (defaulting_spread hobject (list_separates (legacyRelation_separates known)) place "temporal"
      []).both
      (defaulting_spread hobject (list_separates legacyConstraint_separates) place "extra" [])

theorem legacyDocument_tidy (hobject : (Json.object fields).keysOnce = true) :
    Tidy .root (legacyDocument fields).findings :=
  fields_tidy _ hobject (by decide)
    (((((((((required_spread hobject identifier_separates .root "id").fmap _).seq
      (required_spread hobject (nonEmpty_separates _) .root "name")).seq
      (optional_spread hobject string_separates .root "description")).seq
      (optional_spread hobject string_separates .root "createdAt")).seq
      (optional_spread hobject string_separates .root "updatedAt")).seq
      (intervals_spread hobject)).seq
      (defaulting_spread hobject (legacyConstraints_separates _) .root "constraints"
        ([], []))).seq
      (optional_spread hobject selection_separates .root "temporalExpression"))

theorem metadata_separates : Separates metadata :=
  object_separates (by decide) fun place _ hobject =>
    (((required_spread hobject (nonEmpty_separates _) place "name").fmap _).seq
      (optional_spread hobject string_separates place "description")).seq
      (optional_spread hobject string_separates place "createdAtISO")

theorem canonicalConstraints_separates : Separates canonicalConstraints :=
  object_separates (by decide) fun place _ hobject =>
    defaulting_spread hobject (list_separates canonicalConstraint_separates) place "constraints" []

theorem canonicalDocument_tidy (hobject : (Json.object fields).keysOnce = true) :
    Tidy .root (canonicalDocument fields).findings :=
  fields_tidy _ hobject (by decide)
    (((((((required_spread hobject identifier_separates .root "id").fmap _).seq
      (required_spread hobject metadata_separates .root "meta")).seq
      (intervals_spread hobject)).seq
      (defaulting_spread hobject (list_separates (canonicalRelation_separates _)) .root
        "relations" [])).seq
      (defaulting_spread hobject canonicalConstraints_separates .root "constraints" [])).seq
      (optional_spread hobject selection_separates .root "temporalExpression"))

end Parts

/-- **Nothing is found twice.** -/
theorem checked_tidy {input : Json} (hinput : input.keysOnce = true) :
    Tidy .root (checked input).findings := by
  have hversion (problem : Problem) (h : problem.Fits .root (.key .root "schemaVersion")) :
      Tidy .root [⟨.key .root "schemaVersion", problem⟩] :=
    tidy_singleton ⟨beneath_keyText _ _, h⟩
  unfold checked
  split
  · split
    · exact hversion _ trivial
    · split
      · rw [Checked.findings_map]
        exact legacyDocument_tidy hinput
      · split
        · rw [Checked.findings_map]
          exact canonicalDocument_tidy hinput
        · exact hversion _ trivial
  · exact tidy_fail trivial

/-- The issues of a document are all different. -/
theorem nodup_of_check {input : Json} (hinput : input.keysOnce = true) {issues : List Issue}
    (h : check input = .error issues) : issues.Nodup := by
  have htidy := checked_tidy hinput
  unfold check at h
  split at h
  · cases h
  · next first more hchecked =>
    cases h
    rw [hchecked] at htidy
    exact (Issue.sort_perm _).nodup_iff.mpr htidy.distinct

end Document
end EventPattern
