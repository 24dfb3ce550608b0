import EventPattern.Number.Decimal
import EventPattern.Proofs.Number.Rounding

/-! Decimals that stand for a number.

The basin of a number holds what is rounded to it: every fraction in it is
(`Binary64.nearest?_of_holds`), also where the numbers below are twice as dense. The fewest digits
of a number are picked from its basin (`Binary64.holds_shortest`), for which there is always a grid
that is fine enough among those that are tried. And what lies in it is read as the number
(`Binary64.ofDecimal?_of_holds`). -/
namespace EventPattern

/-- A quotient is rounded to the whole number that it is at most half away from, and only to an
even one when it is exactly half away. -/
theorem divHalfEven_eq {num den n : Nat} (hden : 0 < den)
    (hlow : 2 * (n * den) ≤ 2 * num + den) (hhigh : 2 * num ≤ 2 * (n * den) + den)
    (hodd : n % 2 = 1 → 2 * (n * den) < 2 * num + den ∧ 2 * num < 2 * (n * den) + den) :
    divHalfEven num den = n := by
  have hsplit := Nat.div_add_mod' num den
  have hrest := Nat.mod_lt num hden
  unfold divHalfEven
  dsimp only
  generalize num / den = q at hsplit
  generalize num % den = r at hsplit hrest
  have hnear : q = n ∨ n = q + 1 := by
    rcases Nat.lt_trichotomy q n with hlt | heq | hgt
    · by_cases hfar : q + 2 ≤ n
      · have hmul : (q + 2) * den ≤ n * den := Nat.mul_le_mul_right _ hfar
        rw [Nat.add_mul] at hmul
        omega
      · omega
    · exact .inl heq
    · have hmul : (n + 1) * den ≤ q * den := Nat.mul_le_mul_right _ hgt
      rw [Nat.add_mul] at hmul
      omega
  rcases hnear with rfl | rfl
  · split
    · rfl
    · split <;> omega
  · rw [Nat.add_mul] at hlow hhigh hodd
    split
    · omega
    · split
      · rfl
      · omega

/-- Only zero has no digits. -/
theorem Binary64.natAbs_pos {x : Binary64} (hx : x ≠ .zero) : 0 < x.significand.natAbs := by
  refine Nat.pos_of_ne_zero fun h => hx ?_
  obtain ⟨m, s, hcanonical⟩ := x
  have hm : m = 0 := Int.natAbs_eq_zero.mp h
  subst hm
  have hs : s = 0 := hcanonical.2.2.resolve_right (by decide)
  subst hs
  rfl

namespace Basin

variable {b : Basin} {tie : Tie} {num den : Nat}

/-- The fraction `num / den` of quarter units lies in the basin. -/
def Holds (b : Basin) (num den : Nat) : Prop :=
  if b.closed then b.low * den ≤ num ∧ num ≤ b.high * den
  else b.low * den < num ∧ num < b.high * den

theorem Holds.between (h : b.Holds num den) : b.low * den ≤ num ∧ num ≤ b.high * den := by
  unfold Holds at h
  split at h <;> omega

/-! ### The ends of a basin -/

/-- The distance from a number down to the end of its basin. -/
def below (x : Binary64) : Nat :=
  if x.significand.natAbs = 2 ^ 52 ∧ 0 < x.scale then 2 ^ x.scale else 2 * 2 ^ x.scale

theorem value_eq (x : Binary64) : (of x).value = 4 * x.significand.natAbs * 2 ^ x.scale := rfl

theorem low_eq (x : Binary64) : (of x).low = (of x).value - below x := rfl

theorem high_eq (x : Binary64) : (of x).high = (of x).value + 2 * 2 ^ x.scale := rfl

theorem low_pos {x : Binary64} (hx : x ≠ .zero) : 0 < (of x).low := by
  have hpos := Binary64.natAbs_pos hx
  have hstep := Nat.two_pow_pos x.scale
  have hvalue : 4 * 2 ^ x.scale ≤ 4 * x.significand.natAbs * 2 ^ x.scale :=
    Nat.mul_le_mul_right _ (by omega)
  rw [low_eq, value_eq, below]
  split <;> omega

theorem high_le (x : Binary64) : (of x).high ≤ 2 ^ (55 + x.scale) := by
  have hsize := x.canonical.1
  rw [high_eq, value_eq, ← Nat.add_mul, Nat.pow_add]
  exact Nat.mul_le_mul_right _ (by omega)

/-- The basin of a number, in quarters of its own unit. -/
theorem Holds.bounds {x : Binary64} {num den : Nat} (h : (Basin.of x).Holds (4 * num) den) :
    4 * (x.significand.natAbs * (den * 2 ^ x.scale)) ≤ 4 * num + below x * den ∧
      2 * num ≤ 2 * (x.significand.natAbs * (den * 2 ^ x.scale)) + den * 2 ^ x.scale ∧
      (x.significand.natAbs % 2 = 1 →
        4 * (x.significand.natAbs * (den * 2 ^ x.scale)) < 4 * num + below x * den ∧
        2 * num < 2 * (x.significand.natAbs * (den * 2 ^ x.scale)) + den * 2 ^ x.scale) := by
  have hvalue : 4 * x.significand.natAbs * 2 ^ x.scale * den =
      4 * (x.significand.natAbs * (den * 2 ^ x.scale)) := by
    rw [Nat.mul_assoc, Nat.mul_assoc, Nat.mul_comm (2 ^ x.scale)]
  have hup : 2 * 2 ^ x.scale * den = 2 * (den * 2 ^ x.scale) := by
    rw [Nat.mul_assoc, Nat.mul_comm (2 ^ x.scale)]
  have hlow : (Basin.of x).low * den =
      4 * (x.significand.natAbs * (den * 2 ^ x.scale)) - below x * den := by
    rw [← hvalue, ← Nat.sub_mul]
    rfl
  have hhigh : (Basin.of x).high * den =
      4 * (x.significand.natAbs * (den * 2 ^ x.scale)) + 2 * (den * 2 ^ x.scale) := by
    rw [← hvalue, ← hup, ← Nat.add_mul]
    rfl
  have hclosed : (Basin.of x).closed = true ↔ x.significand.natAbs % 2 = 0 := by
    show decide (x.significand % 2 = 0) = true ↔ _
    rw [decide_eq_true_iff]
    omega
  unfold Holds at h
  rw [hlow, hhigh] at h
  split at h
  · next hc =>
    have heven := hclosed.mp hc
    omega
  · omega

end Basin

namespace Binary64

/-! ### Rounding -/

/-- The scale that is picked for a fraction is that of its leading 53 bits. -/
theorem scale_eq {n scale : Nat} (hhigh : n < 2 ^ 53 * 2 ^ scale)
    (hlow : scale = 0 ∨ 2 ^ 52 * 2 ^ scale ≤ n) : n.log2 + 1 - 53 = scale := by
  rw [← Nat.pow_add] at hhigh
  rcases hlow with rfl | hlow
  · by_cases hzero : n = 0
    · subst hzero
      decide
    · have hlog := (Nat.log2_lt hzero).mpr hhigh
      omega
  · rw [← Nat.pow_add] at hlow
    have hne : n ≠ 0 := by
      have := Nat.two_pow_pos (52 + scale)
      omega
    have hlog := (Nat.log2_lt hne).mpr hhigh
    have hlog' := (Nat.le_log2 hne).mpr hlow
    omega

theorem ofParts?_eq (x : Binary64) :
    ofParts? (if x.significand < 0 then -(x.significand.natAbs : Int) else x.significand.natAbs)
      x.scale = some x := by
  have hsign : (if x.significand < 0 then -(x.significand.natAbs : Int)
      else x.significand.natAbs) = x.significand := by
    split <;> omega
  rw [hsign, ofParts?, dif_pos x.canonical]

/-- A fraction of the same scale is rounded to the significand. -/
theorem nearest?_of_same_scale {x : Binary64} {num den : Nat} (hden : 0 < den)
    (h : (Basin.of x).Holds (4 * num) den) (hscale : (num / den).log2 + 1 - 53 = x.scale) :
    nearest? (x.significand < 0) num den = some x := by
  obtain ⟨hlow, hhigh, hodd⟩ := h.bounds
  obtain ⟨hsize, -, -⟩ := x.canonical
  have hparts := ofParts?_eq x
  generalize hm : x.significand.natAbs = m at *
  have hbelow : Basin.below x * den ≤ 2 * (den * 2 ^ x.scale) := by
    unfold Basin.below
    split
    · rw [Nat.mul_comm]
      omega
    · exact Nat.le_of_eq (by rw [Nat.mul_assoc, Nat.mul_comm (2 ^ x.scale)])
  have hround : divHalfEven num (den * 2 ^ x.scale) = m :=
    divHalfEven_eq (Nat.mul_pos hden (Nat.two_pow_pos _)) (by omega) (by omega) fun h => by
      have := hodd h
      omega
  simp only [nearest?, hscale, hround, decide_eq_true_eq]
  rw [if_neg (by omega)]
  exact hparts

/-- Below a power of two the next numbers are twice as dense, and a fraction is rounded up to it. -/
theorem nearest?_of_power {x : Binary64} {num den t : Nat} (hden : 0 < den)
    (h : (Basin.of x).Holds (4 * num) den) (ht : x.scale = t + 1)
    (hpower : 2 ^ 52 = x.significand.natAbs) (hshort : num < 2 ^ 52 * (den * 2 ^ x.scale)) :
    nearest? (x.significand < 0) num den = some x := by
  obtain ⟨hlow, -, -⟩ := h.bounds
  have hparts := ofParts?_eq x
  have htwice : den * 2 ^ x.scale = 2 * (den * 2 ^ t) := by
    rw [ht, Nat.pow_succ, Nat.mul_comm (2 ^ t), Nat.mul_left_comm]
  have hbelow : Basin.below x * den = 2 * (den * 2 ^ t) := by
    rw [Basin.below, if_pos ⟨hpower.symm, by omega⟩, Nat.mul_comm, htwice]
  rw [hbelow, htwice, ← hpower] at hlow
  rw [htwice] at hshort
  have hleast : 2 ^ 52 * 2 ^ t ≤ num / den := by
    rw [Nat.le_div_iff_mul_le hden, Nat.mul_assoc, Nat.mul_comm (2 ^ t)]
    omega
  have hmost : num / den < 2 ^ 53 * 2 ^ t := by
    rw [Nat.div_lt_iff_lt_mul hden, Nat.mul_assoc, Nat.mul_comm (2 ^ t)]
    omega
  have hround : divHalfEven num (den * 2 ^ t) = 2 ^ 53 :=
    divHalfEven_eq (Nat.mul_pos hden (Nat.two_pow_pos _)) (by omega) (by omega) (by omega)
  simp only [nearest?, scale_eq hmost (.inr hleast), hround, decide_eq_true_eq, if_true]
  rw [← hpower, ht] at hparts
  exact hparts

/-- **What lies in the basin of a number is rounded to it.** -/
theorem nearest?_of_holds {x : Binary64} {num den : Nat} (hden : 0 < den)
    (h : (Basin.of x).Holds (4 * num) den) :
    nearest? (x.significand < 0) num den = some x := by
  obtain ⟨hlow, hhigh, -⟩ := h.bounds
  obtain ⟨hsize, -, hcanonical⟩ := x.canonical
  by_cases hfull : x.scale = 0 ∨ 2 ^ 52 * 2 ^ x.scale ≤ num / den
  · have htop : num / den < 2 ^ 53 * 2 ^ x.scale := by
      rw [Nat.div_lt_iff_lt_mul hden, Nat.mul_assoc, Nat.mul_comm (2 ^ x.scale)]
      have hunit : 0 < den * 2 ^ x.scale := Nat.mul_pos hden (Nat.two_pow_pos _)
      have hmul : (x.significand.natAbs + 1) * (den * 2 ^ x.scale) ≤
          2 ^ 53 * (den * 2 ^ x.scale) := Nat.mul_le_mul_right _ hsize
      rw [Nat.add_mul] at hmul
      omega
    exact nearest?_of_same_scale hden h (scale_eq htop hfull)
  · obtain ⟨hscale, hshort⟩ := not_or.mp hfull
    obtain ⟨t, ht⟩ : ∃ t, x.scale = t + 1 := ⟨x.scale - 1, by omega⟩
    rw [Nat.not_le, Nat.div_lt_iff_lt_mul hden, Nat.mul_assoc, Nat.mul_comm (2 ^ x.scale)] at hshort
    rcases Nat.eq_or_lt_of_le (hcanonical.resolve_left hscale) with hpower | hmore
    · exact nearest?_of_power hden h ht hpower hshort
    · -- The basin of any other significand ends above the numbers of the scale below.
      have hmul : (2 ^ 52 + 1) * (den * 2 ^ x.scale) ≤
          x.significand.natAbs * (den * 2 ^ x.scale) := Nat.mul_le_mul_right _ hmore
      have hbelow : Basin.below x * den = 2 * (den * 2 ^ x.scale) := by
        rw [Basin.below, if_neg (fun h => by omega), Nat.mul_assoc, Nat.mul_comm (2 ^ x.scale)]
      rw [Nat.add_mul] at hmul
      omega

end Binary64

namespace Basin

variable {b : Basin} {tie : Tie} {num den : Nat}

/-! ### Picking -/

theorem holds_iff (b : Basin) (num den : Nat) :
    (if b.closed then decide (b.low * den ≤ num) && decide (num ≤ b.high * den)
      else decide (b.low * den < num) && decide (num < b.high * den)) = true ↔
      b.Holds num den := by
  unfold Holds
  split <;> simp only [Bool.and_eq_true, decide_eq_true_eq]

/-- What is picked lies in the basin. -/
theorem holds_of_pick {n : Nat} (h : b.pick tie num den = some n) : b.Holds (n * num) den := by
  unfold pick at h
  dsimp only at h
  split at h
  · next hdown hup =>
    cases h
    split
    · exact (holds_iff b _ den).mp hup
    · exact (holds_iff b _ den).mp hdown
  · next hdown _ =>
    cases h
    exact (holds_iff b _ den).mp hdown
  · next _ hup =>
    cases h
    exact (holds_iff b _ den).mp hup
  · cases h

/-- On a grid that is finer than the upper half of the basin there is something to pick. -/
theorem pick_isSome (hnum : 0 < num) (hlow : b.low ≤ b.value)
    (hfine : b.value * den + num < b.high * den) : (b.pick tie num den).isSome := by
  have hsplit := Nat.div_add_mod' (b.value * den) num
  have hrest := Nat.mod_lt (b.value * den) hnum
  have hfloor : b.low * den ≤ b.value * den := Nat.mul_le_mul_right _ hlow
  have hup : b.Holds ((b.value * den / num + 1) * num) den := by
    rw [Nat.add_mul]
    unfold Holds
    split <;> omega
  unfold pick
  dsimp only
  rw [(holds_iff b _ den).mpr hup]
  split
  · rfl
  · contradiction
  · rfl
  · contradiction

theorem pickAt_eq (b : Basin) (tie : Tie) (exponent : Int) :
    b.pickAt tie exponent =
      b.pick tie (10 ^ exponent.toNat * one) (10 ^ (-exponent).toNat) := by
  unfold pickAt
  split
  · next h =>
    have hzero : (-exponent).toNat = 0 := by omega
    rw [hzero, Nat.pow_zero]
  · next h =>
    have hzero : exponent.toNat = 0 := by omega
    rw [hzero, Nat.pow_zero, Nat.one_mul]

/-! ### The last grid -/

/-- The grid is finer than the upper half of a basin of the scale. -/
def Fine (scale : Nat) (exponent : Int) : Prop :=
  10 ^ exponent.toNat * one < 2 * 2 ^ scale * 10 ^ (-exponent).toNat

instance (scale : Nat) (exponent : Int) : Decidable (Fine scale exponent) :=
  inferInstanceAs (Decidable (_ < _))

/-- The last grid that is tried for a number, by the binary logarithm of its quarter units. -/
def lastExponent (log : Nat) : Int := ((log : Int) - 1076) * 30103 / 100000 + 2 - 19

theorem fine_lastExponent {scale log : Nat} (hscale : scale ≤ 2045)
    (hlog : log = 54 + scale ∨ scale = 0 ∧ log < 54) : Fine scale (lastExponent log) := by
  have hnormal : ((List.range 2046).all fun scale =>
      decide (Fine scale (lastExponent (54 + scale)))) = true := by decide +kernel
  have hsubnormal : ((List.range 54).all fun log => decide (Fine 0 (lastExponent log))) = true := by
    decide +kernel
  rcases hlog with rfl | ⟨rfl, hlog⟩
  · exact of_decide_eq_true (List.all_eq_true.mp hnormal scale (List.mem_range.mpr (by omega)))
  · exact of_decide_eq_true (List.all_eq_true.mp hsubnormal log (List.mem_range.mpr hlog))

theorem log2_value {x : Binary64} (hx : x ≠ .zero) :
    (of x).value.log2 = 54 + x.scale ∨ x.scale = 0 ∧ (of x).value.log2 < 54 := by
  have hpos := Binary64.natAbs_pos hx
  obtain ⟨hsize, -, hcanonical⟩ := x.canonical
  have hne : (of x).value ≠ 0 := by
    rw [value_eq]
    exact Nat.mul_ne_zero (by omega) (Nat.ne_of_gt (Nat.two_pow_pos _))
  have hhigh : (of x).value < 2 ^ (55 + x.scale) := by
    rw [value_eq, Nat.pow_add]
    exact Nat.mul_lt_mul_of_pos_right (by omega) (Nat.two_pow_pos _)
  have hlog := (Nat.log2_lt hne).mpr hhigh
  by_cases hlow : 2 ^ 52 ≤ x.significand.natAbs
  · left
    have hvalue : 2 ^ (54 + x.scale) ≤ (of x).value := by
      rw [value_eq, Nat.pow_add]
      exact Nat.mul_le_mul_right _ (by omega)
    have hlog' := (Nat.le_log2 hne).mpr hvalue
    omega
  · right
    have hscale : x.scale = 0 := hcanonical.resolve_right hlow
    refine ⟨hscale, (Nat.log2_lt hne).mpr ?_⟩
    rw [value_eq, hscale]
    omega

/-- The decimal lies in the basin. -/
def HoldsDecimal (b : Basin) (decimal : Decimal) : Prop :=
  b.Holds (decimal.digits * (10 ^ decimal.exponent.toNat * one)) (10 ^ (-decimal.exponent).toNat)

/-- An exponent that is not negative can be written out as zeros. -/
theorem holdsDecimal_whole_iff {digits : Nat} {exponent : Int} (hexponent : 0 ≤ exponent) :
    b.HoldsDecimal ⟨digits, exponent⟩ ↔ b.HoldsDecimal ⟨digits * 10 ^ exponent.toNat, 0⟩ := by
  have hzero : (-exponent).toNat = 0 := by omega
  have hdigits : digits * 10 ^ exponent.toNat * (10 ^ (0 : Int).toNat * one) =
      digits * (10 ^ exponent.toNat * one) := by
    rw [Int.toNat_zero, Nat.pow_zero, Nat.one_mul, Nat.mul_assoc]
  unfold HoldsDecimal
  dsimp only
  rw [hdigits, hzero]
  rfl

end Basin

namespace Binary64

/-- **The fewest digits of a number lie in its basin.** -/
theorem holds_shortest {x : Binary64} (hx : x ≠ .zero) (tie : Tie) :
    (Basin.of x).HoldsDecimal (x.shortest tie) := by
  have hlast : ((Basin.of x).pickAt tie (Basin.lastExponent (Basin.of x).value.log2)).isSome := by
    rw [Basin.pickAt_eq]
    have hfine := Basin.fine_lastExponent x.canonical.2.1 (Basin.log2_value hx)
    refine Basin.pick_isSome (Nat.mul_pos (Nat.pow_pos (by decide)) (by decide +kernel))
      (Nat.sub_le _ _) ?_
    rw [Basin.high_eq, Nat.add_mul]
    exact Nat.add_lt_add_left hfine _
  unfold shortest
  dsimp only
  generalize hhit : List.findSome? _ _ = hit
  cases hit with
  | none =>
    rw [List.findSome?_eq_none_iff] at hhit
    have hnone := hhit (Basin.lastExponent (Basin.of x).value.log2)
      (List.mem_map.mpr ⟨19, by decide, rfl⟩)
    rw [Option.map_eq_none_iff] at hnone
    rw [hnone] at hlast
    cases hlast
  | some decimal =>
    obtain ⟨exponent, -, hpicked⟩ := List.exists_of_findSome?_eq_some hhit
    obtain ⟨n, hn, rfl⟩ := Option.map_eq_some_iff.mp hpicked
    rw [Basin.pickAt_eq] at hn
    exact Basin.holds_of_pick hn

/-! ### Reading -/

theorem lt_pow_mul_of_lt {a b c n k : Nat} (h : a < (b + 1) ^ n * c) (hn : n ≤ k) :
    a < (b + 1) ^ k * c :=
  Nat.lt_of_lt_of_le h (Nat.mul_le_mul_right _ (Nat.pow_le_pow_right (Nat.succ_pos b) hn))

theorem pow_lt_of_lt {a b n k : Nat} (h : (b + 1) ^ n < a) (hn : k ≤ n) : (b + 1) ^ k < a :=
  Nat.lt_of_le_of_lt (Nat.pow_le_pow_right (Nat.succ_pos b) hn) h

theorem basinOne_lt_pow : Basin.one < (9 + 1) ^ 331 * 1 := by decide +kernel

theorem pow_lt_basinOne : (1 + 1) ^ 2100 < (9 + 1) ^ 310 * Basin.one := by decide +kernel

/-- Digits and exponent together give the size of what a basin holds. -/
theorem size_of_holds {x : Binary64} (hx : x ≠ .zero) {decimal : Decimal}
    (h : (Basin.of x).HoldsDecimal decimal) :
    decimal.digits ≠ 0 ∧
      ¬ ((Nat.repr decimal.digits).length : Int) + decimal.exponent < -330 ∧
      ¬ 310 < ((Nat.repr decimal.digits).length : Int) + decimal.exponent := by
  obtain ⟨digits, exponent⟩ := decimal
  obtain ⟨hlow, hhigh⟩ := h.between
  dsimp only at *
  have hden : 0 < 10 ^ (-exponent).toNat := Nat.pow_pos (by decide)
  have hlow : 10 ^ (-exponent).toNat ≤ digits * (10 ^ exponent.toNat * Basin.one) :=
    Nat.le_trans (Nat.le_mul_of_pos_left _ (Basin.low_pos hx)) hlow
  have hhigh : digits * (10 ^ exponent.toNat * Basin.one) ≤
      2 ^ (55 + x.scale) * 10 ^ (-exponent).toNat :=
    Nat.le_trans hhigh (Nat.mul_le_mul_right _ (Basin.high_le x))
  have hdigits : digits ≠ 0 := by
    rintro rfl
    rw [Nat.zero_mul] at hlow
    exact absurd hlow (Nat.not_le.mpr hden)
  have hlength : 0 < (Nat.repr digits).length := Nat.length_repr_pos
  have hbelow : digits < 10 ^ (Nat.repr digits).length :=
    (Nat.length_repr_le_iff hlength).mp (Nat.le_refl _)
  have habove : 10 ^ ((Nat.repr digits).length - 1) ≤ digits := by
    by_cases hone : (Nat.repr digits).length = 1
    · rw [hone]
      omega
    · have hless : ¬ (Nat.repr digits).length ≤ (Nat.repr digits).length - 1 := by omega
      rw [Nat.length_repr_le_iff (by omega)] at hless
      exact Nat.not_lt.mp hless
  generalize (Nat.repr digits).length = length at *
  have hsmall : ¬ (length : Int) + exponent < -330 := by
    intro hsmall
    have hzero : exponent.toNat = 0 := by omega
    obtain ⟨r, hr, hsplit⟩ : ∃ r, 331 ≤ r ∧ (-exponent).toNat = length + r :=
      ⟨(-exponent).toNat - length, by omega, by omega⟩
    rw [hzero, hsplit, Nat.pow_zero, Nat.one_mul, Nat.pow_add] at hlow
    have hmul : digits * Basin.one ≤ 10 ^ length * Basin.one := Nat.mul_le_mul_right _ (by omega)
    have hpower := Nat.le_of_mul_le_mul_left (Nat.le_trans hlow hmul) (Nat.pow_pos (by decide))
    rw [← Nat.mul_one (10 ^ r)] at hpower
    exact Nat.not_lt.mpr hpower (lt_pow_mul_of_lt basinOne_lt_pow hr)
  have hlarge : ¬ 310 < (length : Int) + exponent := by
    intro hlarge
    have hmul : 10 ^ (length - 1) * (10 ^ exponent.toNat * Basin.one) ≤
        digits * (10 ^ exponent.toNat * Basin.one) := Nat.mul_le_mul_right _ habove
    obtain ⟨r, hr, hsplit⟩ : ∃ r, 310 ≤ r ∧ length - 1 + exponent.toNat = (-exponent).toNat + r :=
      ⟨length - 1 + exponent.toNat - (-exponent).toNat, by omega, by omega⟩
    have hbound := Nat.le_trans hmul hhigh
    rw [← Nat.mul_assoc, ← Nat.pow_add, hsplit, Nat.pow_add, Nat.mul_assoc,
      Nat.mul_comm (2 ^ (55 + x.scale))] at hbound
    have hpower := Nat.le_of_mul_le_mul_left hbound hden
    have hscale : 55 + x.scale ≤ 2100 := Nat.add_le_add_left x.canonical.2.1 55
    exact Nat.not_lt.mpr hpower (lt_pow_mul_of_lt (pow_lt_of_lt pow_lt_basinOne hscale) hr)
  exact ⟨hdigits, hsmall, hlarge⟩

theorem mul_basinOne (n : Nat) : n * Basin.one = 4 * (n * one) := by
  rw [Basin.one, Nat.mul_left_comm]

/-- **A decimal in the basin of a number is read as that number.** -/
theorem ofDecimal?_of_holds {x : Binary64} (hx : x ≠ .zero) {decimal : Decimal}
    (h : (Basin.of x).HoldsDecimal decimal) :
    ofDecimal? (x.significand < 0) decimal.digits decimal.exponent = some x := by
  obtain ⟨hdigits, hsmall, hlarge⟩ := size_of_holds hx h
  unfold Basin.HoldsDecimal at h
  unfold ofDecimal?
  dsimp only
  rw [if_neg (by omega), if_neg hlarge]
  split
  · next hexponent =>
    have hzero : (-decimal.exponent).toNat = 0 := by omega
    rw [hzero, Nat.pow_zero, ← Nat.mul_assoc, mul_basinOne] at h
    exact nearest?_of_holds (by decide) h
  · next hexponent =>
    have hzero : decimal.exponent.toNat = 0 := by omega
    rw [hzero, Nat.pow_zero, Nat.one_mul, mul_basinOne] at h
    exact nearest?_of_holds (Nat.pow_pos (by decide)) h

/-- So is a whole number that is rounded. -/
theorem ofInt_of_holds {x : Binary64} {i : Int} (hsign : i < 0 ↔ x.significand < 0)
    (h : (Basin.of x).HoldsDecimal ⟨i.natAbs, 0⟩) : ofInt i = x := by
  have hnegative : i * one < 0 ↔ x.significand < 0 := by
    rw [← hsign]
    constructor
    · intro hless
      by_cases hi : i < 0
      · exact hi
      · have := Int.mul_nonneg (Int.not_lt.mp hi) (Int.natCast_nonneg one)
        omega
    · exact fun hi => Int.mul_neg_of_neg_of_pos hi (Int.natCast_pos.mpr one_pos)
  have hmagnitude : (i * one).natAbs = i.natAbs * one := by
    rw [Int.natAbs_mul, Int.natAbs_natCast]
  have hholds : (Basin.of x).Holds (4 * (i.natAbs * one)) 1 := by
    rw [← mul_basinOne, ← Nat.one_mul Basin.one]
    exact h
  rw [ofInt, ofUnits?, hmagnitude, decide_eq_decide.mpr hnegative,
    nearest?_of_holds (by decide) hholds, Option.getD_some]

end Binary64
end EventPattern
