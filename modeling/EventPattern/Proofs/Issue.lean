import EventPattern.Issue
import EventPattern.Proofs.Sorting
import EventPattern.Proofs.Text.ByteOrder
import Mathlib.Data.List.Nodup

/-! Issues in order.

Issues of one severity are told apart by what they are sorted by (`eq_of_sortKey`). So their order
does not depend on where they came from (`sort_eq_of_perm`), and if each is there once, they
ascend strictly in the order of the bytes of path, code and message
(`Ordered.pairwise_precedes`). -/
namespace EventPattern.Issue

variable {issues others : List Issue} {severity : Severity}

/-! ### Severities -/

theorem isError_iff (issue : Issue) : issue.isError = true ↔ issue.severity = .error :=
  decide_eq_true_iff

theorem isError_eq_false_iff (issue : Issue) :
    issue.isError = false ↔ issue.severity = .warning := by
  unfold isError
  cases issue.severity <;> simp

theorem filter_isError_errors {issues : List Issue} (h : ∀ i ∈ issues, i.severity = .error) :
    issues.filter isError = issues ∧ issues.filter (!·.isError) = [] := by
  constructor
  · exact List.filter_eq_self.mpr fun i hi => (isError_iff i).mpr (h i hi)
  · refine List.filter_eq_nil_iff.mpr fun i hi => ?_
    rw [(isError_iff i).mpr (h i hi)]
    simp

theorem filter_isError_warnings {issues : List Issue} (h : ∀ i ∈ issues, i.severity = .warning) :
    issues.filter isError = [] ∧ issues.filter (!·.isError) = issues := by
  constructor
  · refine List.filter_eq_nil_iff.mpr fun i hi => ?_
    rw [(isError_eq_false_iff i).mpr (h i hi)]
    simp
  · refine List.filter_eq_self.mpr fun i hi => ?_
    rw [(isError_eq_false_iff i).mpr (h i hi)]
    rfl

theorem anyError_eq_false {issues : List Issue} (h : ∀ i ∈ issues, i.severity = .warning) :
    anyError issues = false :=
  List.any_eq_false.mpr fun i hi => by rw [(isError_eq_false_iff i).mpr (h i hi)]; simp

theorem anyError_eq_true {issues : List Issue} {issue : Issue} (hmem : issue ∈ issues)
    (h : issue.severity = .error) : anyError issues = true :=
  List.any_eq_true.mpr ⟨issue, hmem, (isError_iff issue).mpr h⟩

theorem anyError_iff : anyError issues = true ↔ issues.filter isError ≠ [] := by
  rw [anyError, List.any_eq_true, ne_eq, List.filter_eq_nil_iff]
  simp

/-- Errors and warnings told apart. -/
theorem severity_of_filter (issues : List Issue) :
    (∀ issue ∈ issues.filter isError, issue.severity = .error) ∧
      ∀ issue ∈ issues.filter (!·.isError), issue.severity = .warning := by
  constructor
  · intro issue hissue
    exact (isError_iff issue).mp (List.mem_filter.mp hissue).2
  · intro issue hissue
    exact (isError_eq_false_iff issue).mp (by simpa using (List.mem_filter.mp hissue).2)

/-! ### Sorting -/

@[simp] theorem sort_sort (issues : List Issue) : sort (sort issues) = sort issues :=
  sortOn_sortOn sortKey issues

theorem sort_distinct_sort (issues : List Issue) :
    sort (distinct (sort (distinct issues))) = sort (distinct issues) :=
  sortOn_eraseDups_sortOn sortKey issues

@[simp] theorem mem_sort {issue : Issue} : issue ∈ sort issues ↔ issue ∈ issues :=
  mem_sortOn sortKey

@[simp] theorem mem_distinct {issue : Issue} : issue ∈ distinct issues ↔ issue ∈ issues :=
  List.mem_eraseDups

theorem sort_perm (issues : List Issue) : (sort issues).Perm issues := sortOn_perm sortKey issues

theorem nodup_distinct (issues : List Issue) : (distinct issues).Nodup := nodup_eraseDups issues

theorem distinct_of_nodup (h : issues.Nodup) : distinct issues = issues := eraseDups_of_nodup h

theorem eq_of_sortKey {issue other : Issue} (hseverity : issue.severity = other.severity)
    (hkey : issue.sortKey = other.sortKey) : issue = other := by
  cases issue
  cases other
  simp_all [sortKey]

/-- Of issues of one severity, the order they came in does not show any more. -/
theorem sort_eq_of_perm (hseverity : ∀ issue ∈ issues, issue.severity = severity)
    (h : issues.Perm others) : sort issues = sort others :=
  sortOn_eq_of_perm_of_inj sortKey (fun _ ha _ hb =>
    eq_of_sortKey ((hseverity _ ha).trans (hseverity _ hb).symm)) h

theorem sort_sort_append (hissues : ∀ issue ∈ issues, issue.severity = severity)
    (hothers : ∀ issue ∈ others, issue.severity = severity) :
    sort (sort issues ++ others) = sort (issues ++ others) := by
  have hall : ∀ issue ∈ sort issues ++ others, issue.severity = severity :=
    List.forall_mem_append.mpr ⟨fun issue hissue => hissues issue (mem_sort.mp hissue), hothers⟩
  exact sort_eq_of_perm hall ((sort_perm issues).append_right others)

/-- It does not matter whether what is there several times is in order each time. -/
theorem sort_flatten_replicate (hseverity : ∀ issue ∈ issues, issue.severity = severity)
    (n : Nat) :
    sort (List.replicate n (sort issues)).flatten = sort (List.replicate n issues).flatten := by
  have hperm : (List.replicate n (sort issues)).flatten.Perm (List.replicate n issues).flatten := by
    induction n with
    | zero => exact .refl _
    | succ n ih =>
      rw [List.replicate_succ, List.replicate_succ, List.flatten_cons, List.flatten_cons]
      exact (sort_perm issues).append ih
  have hall : ∀ issue ∈ (List.replicate n issues).flatten, issue.severity = severity := by
    intro issue hissue
    obtain ⟨copy, hcopy, hissue⟩ := List.mem_flatten.mp hissue
    rw [List.eq_of_mem_replicate hcopy] at hissue
    exact hseverity issue hissue
  exact (sort_eq_of_perm hall hperm.symm).symm

theorem sort_eq_nil : sort issues = [] ↔ issues = [] := by
  rw [sort, ← List.length_eq_zero_iff, length_sortOn, List.length_eq_zero_iff]

/-- Issues in order stay what they are as long as they are not there twice. -/
theorem sort_flatten_replicate_eq (hsorted : sort issues = issues) (n : Nat) :
    sort (List.replicate n issues).flatten = issues ↔ issues = [] ∨ n = 1 := by
  constructor
  · intro h
    have hlength := congrArg List.length h
    rw [sort, length_sortOn, List.length_flatten, List.map_replicate,
      List.sum_replicate_nat] at hlength
    rcases Nat.eq_zero_or_pos issues.length with hnone | hsome
    · exact .inl (List.length_eq_zero_iff.mp hnone)
    · exact .inr (Nat.eq_of_mul_eq_mul_right hsome (hlength.trans (Nat.one_mul _).symm))
  · rintro (rfl | rfl)
    · rw [List.flatten_replicate_nil]
      rfl
    · rw [List.replicate_one, List.flatten_singleton, hsorted]

/-- Once each of them is kept once, nothing counts but which there are. -/
theorem sort_distinct_eq (hseverity : ∀ issue ∈ issues, issue.severity = severity)
    (h : ∀ issue, issue ∈ issues ↔ issue ∈ others) :
    sort (distinct issues) = sort (distinct others) :=
  sort_eq_of_perm (fun issue hissue => hseverity issue (mem_distinct.mp hissue)) (eraseDups_perm h)

/-! ### In the order of bytes -/

/-- What issues are ordered by, in bytes. -/
def bytesKey (issue : Issue) : List (List UInt8) :=
  [utf8 issue.path, utf8 issue.code, utf8 issue.message]

/-- The issue comes before the other: by its path, then its code, then its message, byte by
byte. -/
def Precedes (issue other : Issue) : Prop := issue.bytesKey < other.bytesKey

theorem precedes_iff (issue other : Issue) :
    issue.Precedes other ↔ issue.sortKey < other.sortKey :=
  map_utf8_lt_iff issue.sortKey other.sortKey

/-- Issues of one severity, each of them there once, in order. -/
structure Ordered (severity : Severity) (issues : List Issue) : Prop where
  all : ∀ issue ∈ issues, issue.severity = severity
  distinct : issues.Nodup
  sorted : sort issues = issues

theorem ordered_nil : Ordered severity [] := ⟨nofun, .nil, rfl⟩

theorem ordered_sort (hseverity : ∀ issue ∈ issues, issue.severity = severity)
    (hdistinct : issues.Nodup) : Ordered severity (sort issues) :=
  ⟨fun issue h => hseverity issue (mem_sort.mp h), (sort_perm issues).nodup_iff.mpr hdistinct,
    sort_sort issues⟩

/-- **Issues of one severity, each of them there once, ascend strictly.** -/
theorem Ordered.pairwise_precedes (h : Ordered severity issues) : issues.Pairwise Precedes := by
  have hkeys : (issues.map sortKey).Nodup := List.Nodup.map_on (fun a ha b hb =>
    eq_of_sortKey ((h.all a ha).trans (h.all b hb).symm)) h.distinct
  rw [← h.sorted]
  exact (pairwise_lt_sortOn sortKey hkeys).imp fun {a b} hlt => (precedes_iff a b).mpr hlt

end EventPattern.Issue
