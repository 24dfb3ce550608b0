import EventPattern.Catalog.Embedded
import EventPattern.Proofs.Number.Rounding
import EventPattern.Proofs.Related
import EventPattern.Proofs.Timeline
import EventPattern.Suggestion

/-! What a drawing suggests.

A suggestion goes by the ends of the two ranges in order, so it does not matter which way round a
range is drawn (`ofDrawing_of_ordered`). Which of these ends a family compares is told by its
differences, over the whole numbers (`Family.deltaDifference?`, `Family.epsilonDifference?`): they
are what is suggested as long as they are not negative and a number can hold them
(`Threshold.Measures`). Families that say the same of two ranges from either side have the same
differences with the ranges exchanged, and so suggest the same (`suggestions_geometric`). -/
namespace EventPattern

/-! ### The ends of a range -/

namespace TickRange

/-- The range drawn from its other end. -/
def turned (r : TickRange) : TickRange := ⟨r.stop, r.start⟩

def low (r : TickRange) : Int := min r.start.toInt r.stop.toInt

def high (r : TickRange) : Int := max r.start.toInt r.stop.toInt

theorem toInt_ordered (r : TickRange) :
    r.ordered.start.toInt = r.low ∧ r.ordered.stop.toInt = r.high := by
  unfold ordered between low high
  simp only [Int64.le_iff_toInt_le]
  split <;> constructor <;> dsimp only <;> omega

theorem ordered_turned (r : TickRange) : r.turned.ordered = r.ordered := by
  obtain ⟨hstart, hstop⟩ := r.toInt_ordered
  obtain ⟨hstart', hstop'⟩ := r.turned.toInt_ordered
  refine TickRange.ext (Int64.toInt_inj.mp ?_) (Int64.toInt_inj.mp ?_)
  · rw [hstart, hstart']
    exact Int.min_comm _ _
  · rw [hstop, hstop']
    exact Int.max_comm _ _

end TickRange

/-! ### Families -/

namespace Family

/-- Two families that say the same of two ranges, one from the left and one from the right. -/
inductive Mirrors : Family → Family → Prop where
  | apart : Mirrors .before .after
  | overlapping : Mirrors .leftOverlap .rightOverlap
  | within : Mirrors .during .reverseDuring

/-- What a family takes for δ: how far an end of one range lies beyond an end of the other. -/
def deltaDifference? (family : Family) (left right : TickRange) : Option Int :=
  match family with
  | .before => some (right.low - left.high)
  | .after => some (left.low - right.high)
  | .leftOverlap | .reverseDuring | .startPreceding => some (right.low - left.low)
  | .rightOverlap | .during => some (left.low - right.low)
  | .equals => some 0
  | .endFollowing => none

/-- What a family takes for ε. -/
def epsilonDifference? (family : Family) (left right : TickRange) : Option Int :=
  match family with
  | .leftOverlap | .during => some (right.high - left.high)
  | .rightOverlap | .reverseDuring | .endFollowing => some (left.high - right.high)
  | .equals => some 0
  | .before | .after | .startPreceding => none

theorem Mirrors.differences {family mirror : Family} (h : family.Mirrors mirror)
    (left right : TickRange) :
    family.deltaDifference? left right = mirror.deltaDifference? right left ∧
      family.epsilonDifference? left right = mirror.epsilonDifference? right left := by
  cases h <;> exact ⟨rfl, rfl⟩

/-- Neither the table of names leads from the reference to a family, nor, with the blanks around it
cut off, does the catalog. -/
structure Unknown (reference : String) (catalog : Catalog) : Prop where
  name : ofName? reference = none
  operator : ∀ op, catalog.lookup? (trimBlanks reference) = some op →
    ∀ base, catalog.base? op = some base → ofName? base.id = none

theorem lookup?_eq_none_iff (reference : String) (catalog : Catalog) :
    lookup? reference catalog = none ↔ Unknown reference catalog := by
  unfold lookup?
  rw [Option.or_eq_none_iff, Option.bind_eq_none_iff]
  constructor
  · intro ⟨hname, hoperator⟩
    exact ⟨hname, fun op hop => Option.bind_eq_none_iff.mp (hoperator op hop)⟩
  · intro h
    exact ⟨h.name, fun op hop => Option.bind_eq_none_iff.mpr (h.operator op hop)⟩

end Family

/-! ### Thresholds -/

/-- The threshold is what a difference comes to: a number that is not negative, and as long as the
difference is below 2^53 it is exactly the difference or, if that is negative, zero. -/
def Threshold.Measures (t : Threshold) (difference : Int) : Prop :=
  ∃ x nonneg, t = .finite x nonneg ∧
    (difference < 2 ^ 53 → x.units = max 0 difference * Binary64.one)

namespace Suggestion

/-- No more than a tick can count, which only differences that no number holds exactly come to. -/
theorem measures_threshold? (difference : Int) :
    ∃ t, threshold? (min difference.toNat (2 ^ 63 - 1)) = some t ∧ t.Measures difference := by
  refine ⟨_, dif_pos (Binary64.zero_le_ofInt _), _, _, rfl, fun hsmall => ?_⟩
  have hexact : min difference.toNat (2 ^ 63 - 1) = difference.toNat := by omega
  rw [hexact, Binary64.units_ofInt (by omega)]
  congr 1
  omega

/-! ### Margins -/

section Ends
variable (left right : TickRange)

@[simp] theorem toInt_leftStart : (Margin.leftStart.tick left right).toInt = left.low :=
  left.toInt_ordered.1

@[simp] theorem toInt_leftStop : (Margin.leftStop.tick left right).toInt = left.high :=
  left.toInt_ordered.2

@[simp] theorem toInt_rightStart : (Margin.rightStart.tick left right).toInt = right.low :=
  right.toInt_ordered.1

@[simp] theorem toInt_rightStop : (Margin.rightStop.tick left right).toInt = right.high :=
  right.toInt_ordered.2

variable (family : Family)

theorem length?_delta : length? family (Margin.delta? family) left right =
    (family.deltaDifference? left right).map fun n => min n.toNat (2 ^ 63 - 1) := by
  cases family <;> simp [length?, Margin.delta?, Family.deltaDifference?, Margin.length]

theorem length?_epsilon : length? family (Margin.epsilon? family) left right =
    (family.epsilonDifference? left right).map fun n => min n.toNat (2 ^ 63 - 1) := by
  cases family <;> simp [length?, Margin.epsilon?, Family.epsilonDifference?, Margin.length]

end Ends

/-- The threshold that is suggested for a difference. -/
def thresholdOf (difference : Option Int) : Option Threshold :=
  (difference.map fun n => min n.toNat (2 ^ 63 - 1)).bind threshold?

theorem rel_thresholdOf (difference : Option Int) :
    Option.Rel Threshold.Measures (thresholdOf difference) difference := by
  cases difference with
  | none => exact .none
  | some n =>
    obtain ⟨t, ht, hmeasures⟩ := measures_threshold? n
    rw [thresholdOf, Option.map_some, Option.bind_some, ht]
    exact .some hmeasures

/-! ### Suggestions -/

variable {operator : String} {catalog : Catalog} {family : Family}

theorem params_of_family (left right : TickRange)
    (h : Family.lookup? operator catalog = some family) :
    (ofDrawing ⟨left, right, operator⟩ catalog).params =
      { rho := some .zero, delta := thresholdOf (family.deltaDifference? left right)
        epsilon := thresholdOf (family.epsilonDifference? left right) } := by
  simp only [ofDrawing, h, length?_delta, length?_epsilon, thresholdOf]
  rfl

theorem params_of_unknown (left right : TickRange) (h : Family.lookup? operator catalog = none) :
    (ofDrawing ⟨left, right, operator⟩ catalog).params = { rho := some .zero } := by
  simp only [ofDrawing, h]

/-- Only the ends in order count, for the thresholds and for what is said about them. -/
theorem ofDrawing_of_ordered {left left' right right' : TickRange}
    (hleft : left.ordered = left'.ordered) (hright : right.ordered = right'.ordered)
    (operator : String) (catalog : Catalog) :
    ofDrawing ⟨left, right, operator⟩ catalog = ofDrawing ⟨left', right', operator⟩ catalog := by
  have htick (e : Endpoint) : e.tick left right = e.tick left' right' := by
    rw [Endpoint.tick, Endpoint.tick, hleft, hright]
  have hlength (m : Margin) : m.length left right = m.length left' right' := by
    rw [Margin.length, Margin.length, htick, htick]
  have htext (m : Margin) : m.text left right = m.text left' right' := by
    rw [Margin.text, Margin.text, hlength]
  simp only [ofDrawing, length?, text, measured, hlength, htext]

/-- **Suggestions are read off the drawing, and the same from either side.** Which end of a range is
drawn first makes no difference. Families that mirror each other suggest the same for ranges that
are exchanged. What a family suggests are the differences that it is about, each no less than
zero and exact below 2^53. The amount is always zero, and comparators are never suggested; and there
is nothing else for a reference that neither the names nor the catalog know. -/
theorem suggestions_geometric (catalog : Catalog) (left right : TickRange) :
    (∀ operator, ofDrawing ⟨left.turned, right, operator⟩ catalog =
        ofDrawing ⟨left, right, operator⟩ catalog ∧
      ofDrawing ⟨left, right.turned, operator⟩ catalog =
        ofDrawing ⟨left, right, operator⟩ catalog) ∧
    (∀ operator other family mirror, Family.lookup? operator catalog = some family →
      Family.lookup? other catalog = some mirror → family.Mirrors mirror →
        (ofDrawing ⟨left, right, operator⟩ catalog).params.delta =
            (ofDrawing ⟨right, left, other⟩ catalog).params.delta ∧
          (ofDrawing ⟨left, right, operator⟩ catalog).params.epsilon =
            (ofDrawing ⟨right, left, other⟩ catalog).params.epsilon) ∧
    (∀ operator family, Family.lookup? operator catalog = some family →
      Option.Rel Threshold.Measures (ofDrawing ⟨left, right, operator⟩ catalog).params.delta
          (family.deltaDifference? left right) ∧
        Option.Rel Threshold.Measures (ofDrawing ⟨left, right, operator⟩ catalog).params.epsilon
          (family.epsilonDifference? left right)) ∧
    (∀ operator, (ofDrawing ⟨left, right, operator⟩ catalog).params.rho = some .zero ∧
      (ofDrawing ⟨left, right, operator⟩ catalog).params.zeta = none ∧
      (ofDrawing ⟨left, right, operator⟩ catalog).params.eta = none) ∧
    ∀ operator, Family.Unknown operator catalog →
      (ofDrawing ⟨left, right, operator⟩ catalog).params = { rho := some .zero } := by
  refine ⟨fun operator => ⟨?_, ?_⟩, fun operator other family mirror hfamily hmirror hmirrors => ?_,
    fun operator family hfamily => ?_, fun operator => ?_, fun operator hunknown => ?_⟩
  · exact ofDrawing_of_ordered left.ordered_turned rfl operator catalog
  · exact ofDrawing_of_ordered rfl right.ordered_turned operator catalog
  · obtain ⟨hdelta, hepsilon⟩ := hmirrors.differences left right
    rw [params_of_family left right hfamily, params_of_family right left hmirror, hdelta, hepsilon]
    exact ⟨rfl, rfl⟩
  · rw [params_of_family left right hfamily]
    exact ⟨rel_thresholdOf _, rel_thresholdOf _⟩
  · cases hfamily : Family.lookup? operator catalog with
    | none =>
      rw [params_of_unknown left right hfamily]
      exact ⟨rfl, rfl, rfl⟩
    | some family =>
      rw [params_of_family left right hfamily]
      exact ⟨rfl, rfl, rfl⟩
  · exact params_of_unknown left right
      ((Family.lookup?_eq_none_iff operator catalog).mpr hunknown)

/-- A range that is drawn backwards. -/
def innerRange : TickRange := ⟨20, 12⟩

/-- A range around it, up to the last tick. -/
def outerRange : TickRange := ⟨10, .maxValue⟩

/-- An alias by its id and the long name of the mirrored family, with a blank before it, suggest the
same; of the thresholds δ is exact. A name that nothing knows suggests none. -/
theorem suggestions_of_nested_ranges :
    Family.lookup? "allen_during" Catalog.embedded = some .during ∧
      Family.lookup? " ReverseDuringJoin" Catalog.embedded = some .reverseDuring ∧
      Family.Unknown "Nope" Catalog.embedded ∧
      (ofDrawing ⟨innerRange.turned, outerRange, "allen_during"⟩ Catalog.embedded).params.delta =
        (ofDrawing ⟨outerRange, innerRange, " ReverseDuringJoin"⟩ Catalog.embedded).params.delta ∧
      (ofDrawing ⟨innerRange, outerRange, "allen_during"⟩ Catalog.embedded).params.epsilon =
        (ofDrawing ⟨outerRange, innerRange, " ReverseDuringJoin"⟩ Catalog.embedded).params.epsilon ∧
      (∃ (x : Binary64) (nonneg : .zero ≤ x), x.units = 2 * Binary64.one ∧
        (ofDrawing ⟨innerRange, outerRange, "allen_during"⟩ Catalog.embedded).params.delta =
          some (.finite x nonneg)) ∧
      (ofDrawing ⟨innerRange, outerRange, "Nope"⟩ Catalog.embedded).params =
        { rho := some .zero } := by
  have hduring : Family.lookup? "allen_during" Catalog.embedded = some .during := by
    decide +kernel
  have hreverse : Family.lookup? " ReverseDuringJoin" Catalog.embedded = some .reverseDuring := by
    decide +kernel
  have hunknown : Family.Unknown "Nope" Catalog.embedded :=
    (Family.lookup?_eq_none_iff ..).mp (by decide +kernel)
  have hdifference : Family.deltaDifference? .during innerRange outerRange = some 2 := by
    decide +kernel
  obtain ⟨hturned, hmirror, hmeasures, -, hnothing⟩ :=
    suggestions_geometric Catalog.embedded innerRange outerRange
  obtain ⟨hdelta, hepsilon⟩ := hmirror _ _ _ _ hduring hreverse .within
  have hmeasured := (hmeasures _ _ hduring).1
  rw [hdifference] at hmeasured
  obtain ⟨_, ht, x, nonneg, rfl, hexact⟩ := exists_of_rel_some hmeasured
  refine ⟨hduring, hreverse, hunknown, ?_, hepsilon, ⟨x, nonneg, hexact (by decide), ht⟩,
    hnothing _ hunknown⟩
  rw [(hturned "allen_during").1, hdelta]

end Suggestion
end EventPattern
