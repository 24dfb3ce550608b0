import EventPattern.Proofs.Document.Acceptance
import EventPattern.Proofs.Document.Places
import EventPattern.Proofs.Number.Rounding

/-! The ticks of a document.

A tick may be written as any number that is whole and not negative, but it is stored in 64 bits,
and what is beyond them is stored as the largest tick (`IsTick.units_eq`). The ends of an interval
are compared as they are stored. So what is written is kept, in its value and in its order,
exactly when none of it is beyond the largest tick (`ticks_kept_iff`).

Numbers are compared in units of 2^-1074, of which each of them is a whole multiple. -/
namespace EventPattern

/-! ### Numbers and ticks in units -/

/-- The number itself, not the binary64 number nearest to it. -/
def Number.units : Number → Int
  | .int i _ => i * Binary64.one
  | .real x => x.units
  | .negativeZero => 0

def Tick.units (t : Tick) : Int := t.toNat * Binary64.one

def Tick.largest : Tick := .ofNat (2 ^ 64 - 1)

theorem Tick.units_le_units {t u : Tick} : t.units ≤ u.units ↔ t ≤ u := by
  rw [UInt64.le_iff_toNat_le, Tick.units, Tick.units]
  have hone := Binary64.one_pos
  constructor
  · intro h
    exact Int.ofNat_le.mp (Int.le_of_mul_le_mul_right h (Int.natCast_pos.mpr hone))
  · intro h
    exact Int.mul_le_mul_of_nonneg_right (Int.ofNat_le.mpr h) (Int.natCast_nonneg _)

/-- What a whole number that is not negative is stored as. -/
theorem Tick.units_ofNat_min (n : Nat) :
    Tick.units (.ofNat (min n (2 ^ 64 - 1))) =
      min ((n : Int) * Binary64.one) Tick.largest.units := by
  have hstored : (UInt64.ofNat (min n (2 ^ 64 - 1))).toNat = min n (2 ^ 64 - 1) :=
    UInt64.toNat_ofNat_of_lt' (by
      have := Nat.min_le_right n (2 ^ 64 - 1)
      exact Nat.lt_of_le_of_lt this (by decide))
  have hlargest : Tick.largest.toNat = 2 ^ 64 - 1 := by decide
  rw [Tick.units, Tick.units, hstored, hlargest]
  rcases Nat.le_total n (2 ^ 64 - 1) with h | h
  · have hle : (n * Binary64.one : Int) ≤ (2 ^ 64 - 1 : Nat) * Binary64.one :=
      Int.mul_le_mul_of_nonneg_right (Int.ofNat_le.mpr h) (Int.natCast_nonneg _)
    rw [Nat.min_eq_left h, Int.min_eq_left hle]
  · have hle : ((2 ^ 64 - 1 : Nat) * Binary64.one : Int) ≤ n * Binary64.one :=
      Int.mul_le_mul_of_nonneg_right (Int.ofNat_le.mpr h) (Int.natCast_nonneg _)
    rw [Nat.min_eq_right h, Int.min_eq_right hle]

/-! ### What is written -/

/-- The numbers that are written for the start and the end of an interval. -/
def Json.span? (json : Json) : Option (Number × Number) := do
  let start ← (json.get? "start").bind Json.number?
  let stop ← (json.get? "end").bind Json.number?
  return (start, stop)

/-- The spans of the intervals of a document. -/
def Json.spans (input : Json) : List (Number × Number) :=
  (input.itemsAt (.key .root "intervals")).filterMap span?

namespace Document

/-- A tick is the number that is written, or the largest one if that is smaller. -/
theorem IsTick.units_eq {json : Json} {t : Tick} (h : IsTick json t) :
    ∃ n, json = .number n ∧ t.units = min n.units Tick.largest.units := by
  obtain ⟨n, rfl, h⟩ := h
  refine ⟨n, rfl, ?_⟩
  cases n with
  | negativeZero =>
    obtain hsome | ⟨-, -, -, rfl⟩ := h
    · cases hsome
    · have hfloor : Binary64.zero.floor.toNat = 0 := by decide +kernel
      show Tick.units (.ofNat (min Binary64.zero.floor.toNat (2 ^ 64 - 1))) = min 0 _
      rw [hfloor, Tick.units_ofNat_min, Int.natCast_zero, Int.zero_mul]
  | real x =>
    obtain hsome | ⟨-, hwhole, hzero, rfl⟩ := h
    · cases hsome
    · have hnonneg : 0 ≤ x.floor := Int.ediv_nonneg hzero (Int.natCast_nonneg _)
      show Tick.units (.ofNat (min x.floor.toNat (2 ^ 64 - 1))) = min x.units _
      rw [Tick.units_ofNat_min, Int.toNat_of_nonneg hnonneg, Binary64.floor_mul_one (x := x) hwhole]
  | int i hrange =>
    by_cases hnonneg : 0 ≤ i
    · have hread : Number.toUInt64? (.int i hrange) = some (.ofNat i.toNat) := if_pos hnonneg
      obtain hsome | ⟨hnone, -⟩ := h
      · have hfits : min i.toNat (2 ^ 64 - 1) = i.toNat := by omega
        have hstored := Tick.units_ofNat_min i.toNat
        rw [hfits, Int.toNat_of_nonneg hnonneg] at hstored
        cases hread.symm.trans hsome
        exact hstored
      · cases hread.symm.trans hnone
    · have hread : Number.toUInt64? (.int i hrange) = none := if_neg hnonneg
      obtain hsome | ⟨-, -, hzero, -⟩ := h
      · cases hread.symm.trans hsome
      · -- A negative number is refused, because its nearest neighbour is negative as well.
        have hneg : Binary64.ofInt i < .zero := Binary64.ofInt_lt_zero hrange.1 (by omega)
        exact absurd hneg (Int.not_lt.mpr hzero)

/-! ### Intervals -/

/-- The numbers that an interval is written with, and the interval that is read. -/
structure ReadsSpan (span : Number × Number) (i : Interval) : Prop where
  start : i.start.units = min span.1.units Tick.largest.units
  stop : i.stop.units = min span.2.units Tick.largest.units
  ordered : i.start ≤ i.stop

theorem IsInterval.readsSpan {json : Json} {i : Interval} (h : IsInterval json i) :
    ∃ span, json.span? = some span ∧ ReadsSpan span i := by
  obtain ⟨fields, rfl, -, hfields⟩ := h
  obtain ⟨_, hstart, hstartTick⟩ := hfields.start
  obtain ⟨_, hstop, hstopTick⟩ := hfields.stop
  obtain ⟨first, rfl, hfirst⟩ := hstartTick.units_eq
  obtain ⟨last, rfl, hlast⟩ := hstopTick.units_eq
  refine ⟨(first, last), ?_, hfirst, hlast, hfields.ordered⟩
  simp [Json.span?, hstart, hstop, Json.number?]

theorem IsDocument.intervalItems {input : Json} {doc : Document} (h : IsDocument input doc) :
    List.Forall₂ IsInterval (input.itemsAt (.key .root "intervals")) doc.model.intervals := by
  obtain ⟨fields, rfl, -, hfields⟩ := h
  cases doc with
  | legacy d => exact HasFieldOr.items (.inr hfields.intervals.read)
  | canonical d => exact HasFieldOr.items (.inr hfields.intervals.read)

/-- The spans are those of the intervals, each as it is read. -/
theorem IsDocument.readsSpans {input : Json} {doc : Document} (h : IsDocument input doc) :
    List.Forall₂ ReadsSpan input.spans doc.model.intervals := by
  have hread (json : Json) (i : Interval) (hi : IsInterval json i) :
      Option.Rel ReadsSpan json.span? (some i) := by
    obtain ⟨span, hspan, hreads⟩ := hi.readsSpan
    rw [hspan]
    exact .some hreads
  have hspans := List.rel_filterMap hread h.intervalItems
  rwa [List.filterMap_some] at hspans

/-! ### What is kept -/

/-- The number is written for an end of an interval that has the tick at this end. -/
def IsStoredAs (spans : List (Number × Number)) (intervals : List Interval) (n : Number)
    (t : Tick) : Prop :=
  ∃ p ∈ spans.zip intervals, (n = p.1.1 ∧ t = p.2.start) ∨ (n = p.1.2 ∧ t = p.2.stop)

/-- The numbers are kept as they are written: their values, the order of start and end, and which
of them are different. -/
structure TicksKept (spans : List (Number × Number)) (intervals : List Interval) : Prop where
  exact : ∀ n t, IsStoredAs spans intervals n t → t.units = n.units
  ordered : ∀ span ∈ spans, span.1.units ≤ span.2.units
  distinct : ∀ n n' t, IsStoredAs spans intervals n t → IsStoredAs spans intervals n' t →
    n.units = n'.units

section Spans
variable {spans : List (Number × Number)} {intervals : List Interval}
  (h : List.Forall₂ ReadsSpan spans intervals)
include h

theorem units_of_isStoredAs {n : Number} {t : Tick} (hstored : IsStoredAs spans intervals n t) :
    t.units = min n.units Tick.largest.units := by
  obtain ⟨p, hp, ⟨rfl, rfl⟩ | ⟨rfl, rfl⟩⟩ := hstored
  · exact ((List.forall₂_iff_zip.mp h).2 hp).start
  · exact ((List.forall₂_iff_zip.mp h).2 hp).stop

theorem exists_interval_of_span {span : Number × Number} (hspan : span ∈ spans) :
    ∃ i, (span, i) ∈ spans.zip intervals ∧ ReadsSpan span i := by
  obtain ⟨position, hposition⟩ := List.getElem?_of_mem hspan
  obtain ⟨i, hi, hreads⟩ := forall₂_getElem? h hposition
  exact ⟨i, List.mem_of_getElem? (List.getElem?_zip_eq_some.mpr ⟨hposition, hi⟩), hreads⟩

/-- All is kept exactly if nothing that is written is beyond the largest tick. -/
theorem ticksKept_iff : TicksKept spans intervals ↔
    ∀ span ∈ spans, span.1.units ≤ Tick.largest.units ∧ span.2.units ≤ Tick.largest.units := by
  constructor
  · intro hkept span hspan
    obtain ⟨i, hi, hreads⟩ := exists_interval_of_span h hspan
    have hstart : i.start.units = span.1.units := hkept.exact _ _ ⟨_, hi, .inl ⟨rfl, rfl⟩⟩
    have hstop : i.stop.units = span.2.units := hkept.exact _ _ ⟨_, hi, .inr ⟨rfl, rfl⟩⟩
    rw [hreads.start] at hstart
    rw [hreads.stop] at hstop
    exact ⟨by omega, by omega⟩
  · intro hbounded
    have hexact (n : Number) (t : Tick) (hstored : IsStoredAs spans intervals n t) :
        t.units = n.units := by
      have hunits := units_of_isStoredAs h hstored
      obtain ⟨p, hp, hend⟩ := hstored
      obtain ⟨hstart, hstop⟩ := hbounded p.1 (List.of_mem_zip hp).1
      rcases hend with ⟨rfl, rfl⟩ | ⟨rfl, rfl⟩
      · rwa [Int.min_eq_left hstart] at hunits
      · rwa [Int.min_eq_left hstop] at hunits
    refine ⟨hexact, fun span hspan => ?_, fun n n' t hn hn' => ?_⟩
    · obtain ⟨i, hi, hreads⟩ := exists_interval_of_span h hspan
      rw [← hexact _ _ ⟨_, hi, .inl ⟨rfl, rfl⟩⟩, ← hexact _ _ ⟨_, hi, .inr ⟨rfl, rfl⟩⟩]
      exact Tick.units_le_units.mpr hreads.ordered
    · rw [← hexact n t hn, ← hexact n' t hn']

end Spans

/-- **Ticks are exact up to the largest one.** In an accepted document each interval is read from
two numbers, its start and its end are these numbers or else the largest tick, and they are in
order. The numbers are kept (in value, in order, and apart where they differ) exactly if none of
them is beyond the largest tick. -/
theorem ticks_kept_iff {input : Json} {doc : Document} (hcheck : check input = .ok doc) :
    List.Forall₂ ReadsSpan input.spans doc.model.intervals ∧
      (TicksKept input.spans doc.model.intervals ↔
        ∀ span ∈ input.spans,
          span.1.units ≤ Tick.largest.units ∧ span.2.units ≤ Tick.largest.units) := by
  have hspans := ((check_eq_ok_iff input doc).mp hcheck).readsSpans
  exact ⟨hspans, ticksKept_iff hspans⟩

/-- Intervals between the given numbers. -/
def timedPattern (spans : List (String × Number × Number)) : Json :=
  let interval (span : String × Number × Number) : Json :=
    .object [("end", .number span.2.2), ("id", .string span.1),
      ("predicate", .object [("name", .string "p")]), ("start", .number span.2.1)]
  .object [("id", .string "m"), ("intervals", .array (spans.map interval)),
    ("meta", .object [("name", .string "M")]), ("schemaVersion", .string "1.0")]

/-- A number with a fraction part of zero, the largest tick, and two neighbours that no binary64
number tells apart. -/
def keptSpans : List (String × Number × Number) :=
  [("a", .real (.ofInt 3), .ofUInt64 Tick.largest),
    ("b", .ofUInt64 (.ofNat (2 ^ 53)), .ofUInt64 (.ofNat (2 ^ 53 + 1)))]

theorem keptSpans_ticks :
    (∀ span ∈ (timedPattern keptSpans).spans,
      span.1.units ≤ Tick.largest.units ∧ span.2.units ≤ Tick.largest.units) ∧
    ∃ doc, check (timedPattern keptSpans) = .ok doc ∧
      TicksKept (timedPattern keptSpans).spans doc.model.intervals := by
  have hbounded : ∀ span ∈ (timedPattern keptSpans).spans,
      span.1.units ≤ Tick.largest.units ∧ span.2.units ≤ Tick.largest.units := by decide +kernel
  have haccepted : (check (timedPattern keptSpans)).toOption.any (fun _ => true) := by
    decide +kernel
  obtain ⟨doc, hcheck, -⟩ := exists_of_check_any haccepted
  exact ⟨hbounded, doc, hcheck, (ticks_kept_iff hcheck).2.mpr hbounded⟩

/-- An end before the start, both beyond the largest tick. -/
def invertedSpans : List (String × Number × Number) :=
  [("a", .real (.ofInt (2 * 10 ^ 20)), .real (.ofInt (10 ^ 20)))]

/-- The document is accepted, and both ends are stored as the largest tick. -/
theorem invertedSpans_ticks : ∃ doc, check (timedPattern invertedSpans) = .ok doc ∧
    doc.model.intervals.map (fun i => (i.start, i.stop)) = [(Tick.largest, Tick.largest)] ∧
    (∃ span ∈ (timedPattern invertedSpans).spans, span.2.units < span.1.units) ∧
    ¬ TicksKept (timedPattern invertedSpans).spans doc.model.intervals := by
  have hfacts : (check (timedPattern invertedSpans)).toOption.any fun doc =>
      doc.model.intervals.map (fun i => (i.start, i.stop)) = [(Tick.largest, Tick.largest)] := by
    decide +kernel
  have hinverted : ∃ span ∈ (timedPattern invertedSpans).spans,
      span.2.units < span.1.units := by decide +kernel
  obtain ⟨doc, hcheck, hdoc⟩ := exists_of_check_any hfacts
  refine ⟨doc, hcheck, of_decide_eq_true hdoc, hinverted, fun hkept => ?_⟩
  obtain ⟨span, hspan, hlt⟩ := hinverted
  exact absurd (hkept.ordered span hspan) (Int.not_le.mpr hlt)

end Document
end EventPattern
