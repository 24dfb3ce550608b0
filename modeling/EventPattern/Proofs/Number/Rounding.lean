import EventPattern.Json.Basic

/-! Rounding what is exact already.

Every binary64 number is the one nearest to its own units (`ofUnits?_units`). So a whole
number that is written in JSON without a fraction reads back as the number it was, and
`Number.value_ofBinary64` says that writing a number down loses nothing. A whole number of at most
53 bits is exact (`units_ofInt`); where one is not, it still keeps its sign (`ofInt_lt_zero`,
`zero_le_ofInt`). -/
namespace EventPattern

theorem divHalfEven_mul (n den : Nat) (hden : 0 < den) : divHalfEven (n * den) den = n := by
  simp only [divHalfEven, Nat.mul_mod_left, Nat.mul_div_cancel n hden]
  rw [if_pos (by omega)]

theorem le_divHalfEven (num den : Nat) : num / den ≤ divHalfEven num den := by
  unfold divHalfEven
  dsimp only
  split
  · exact Nat.le_refl _
  · split <;> omega

theorem divHalfEven_le (num den : Nat) : divHalfEven num den ≤ num / den + 1 := by
  unfold divHalfEven
  dsimp only
  split
  · omega
  · split <;> omega

namespace Binary64

/-- The scale that rounding picks for a canonical number is the one it has. -/
theorem scale_of_canonical {m s : Nat} (hm : m < 2 ^ 53) (hs : s = 0 ∨ 2 ^ 52 ≤ m) :
    (m * 2 ^ s).log2 + 1 - 53 = s := by
  by_cases hzero : m = 0
  · have : s = 0 := by omega
    subst hzero this
    decide
  · have hpos : 0 < 2 ^ s := Nat.two_pow_pos s
    have hne : m * 2 ^ s ≠ 0 := Nat.mul_ne_zero hzero (by omega)
    have hhigh : (m * 2 ^ s).log2 < 53 + s := by
      rw [Nat.log2_lt hne, Nat.pow_add]
      exact Nat.mul_lt_mul_of_pos_right hm hpos
    rcases hs with rfl | hlow
    · omega
    · have hlow : 52 + s ≤ (m * 2 ^ s).log2 := by
        rw [Nat.le_log2 hne, Nat.pow_add]
        exact Nat.mul_le_mul_right _ hlow
      omega

theorem natAbs_units (x : Binary64) : x.units.natAbs = x.significand.natAbs * 2 ^ x.scale := by
  rw [units, Int.natAbs_mul, Int.natAbs_pow]
  rfl

theorem units_neg_iff (x : Binary64) : x.units < 0 ↔ x.significand < 0 := by
  have hpos : (0 : Int) < 2 ^ x.scale := Int.pow_pos (by decide)
  constructor
  · intro h
    by_cases hsign : x.significand < 0
    · exact hsign
    · have : 0 ≤ x.units := Int.mul_nonneg (by omega) (Int.le_of_lt hpos)
      omega
  · intro h
    exact Int.mul_neg_of_neg_of_pos h hpos

/-- **A number is nearest to itself.** -/
theorem ofUnits?_units (x : Binary64) : ofUnits? x.units = some x := by
  obtain ⟨hsize, hscale, hcanonical⟩ := x.canonical
  have hround : divHalfEven (x.significand.natAbs * 2 ^ x.scale) (1 * 2 ^ x.scale) =
      x.significand.natAbs := by
    rw [Nat.one_mul]
    exact divHalfEven_mul _ _ (Nat.two_pow_pos _)
  have hsign : (if decide (x.units < 0) = true then -(x.significand.natAbs : Int)
      else x.significand.natAbs) = x.significand := by
    simp only [decide_eq_true_eq, units_neg_iff]
    split <;> omega
  simp only [ofUnits?, nearest?, natAbs_units, Nat.div_one, scale_of_canonical hsize hcanonical,
    hround, hsign]
  rw [if_neg (by omega), ofParts?, dif_pos x.canonical]

theorem floor_mul_one {x : Binary64} (h : x.isWhole) : x.floor * one = x.units :=
  Int.ediv_mul_cancel (Int.dvd_of_emod_eq_zero (of_decide_eq_true h))

theorem ofInt_floor {x : Binary64} (h : x.isWhole) : ofInt x.floor = x := by
  rw [ofInt, floor_mul_one h, ofUnits?_units, Option.getD_some]

/-- What is rounded to 53 bits takes no more than these, and no fewer unless it is exact. -/
theorem rounded_bounds {num : Nat} (hpos : num ≠ 0) :
    0 < divHalfEven num (2 ^ (num.log2 + 1 - 53)) ∧
      divHalfEven num (2 ^ (num.log2 + 1 - 53)) ≤ 2 ^ 53 ∧
      (num.log2 + 1 - 53 = 0 ∨ 2 ^ 52 ≤ divHalfEven num (2 ^ (num.log2 + 1 - 53))) := by
  have hlow : 2 ^ num.log2 ≤ num := Nat.log2_self_le hpos
  have hhigh : num < 2 ^ (num.log2 + 1) := Nat.lt_log2_self
  have hdown := le_divHalfEven num (2 ^ (num.log2 + 1 - 53))
  have hup := divHalfEven_le num (2 ^ (num.log2 + 1 - 53))
  by_cases hsmall : num.log2 + 1 ≤ 53
  · have hscale : num.log2 + 1 - 53 = 0 := by omega
    have hbits : num < 2 ^ 53 := Nat.lt_of_lt_of_le hhigh (Nat.pow_le_pow_right (by decide) hsmall)
    rw [hscale, Nat.pow_zero, Nat.div_one] at hdown hup
    rw [hscale, Nat.pow_zero]
    omega
  · obtain ⟨scale, hlog⟩ : ∃ scale, num.log2 = scale + 52 := ⟨num.log2 - 52, by omega⟩
    have hscale : num.log2 + 1 - 53 = scale := by omega
    rw [hlog, Nat.pow_add, Nat.mul_comm] at hlow
    rw [hlog, Nat.add_assoc, Nat.pow_add] at hhigh
    rw [hscale] at hdown hup
    rw [hscale]
    have hat : 2 ^ 52 ≤ num / 2 ^ scale := (Nat.le_div_iff_mul_le (Nat.two_pow_pos _)).mpr hlow
    have hbelow : num / 2 ^ scale < 2 ^ 53 := Nat.div_lt_of_lt_mul hhigh
    omega

/-- Rounding keeps a number negative, and stays within the range. -/
theorem nearest?_neg {num : Nat} (hpos : num ≠ 0) (hrange : num.log2 < 2096) :
    ∃ x, nearest? true num 1 = some x ∧ x.significand < 0 := by
  obtain ⟨hzero, hhigh, hlow⟩ := rounded_bounds hpos
  simp only [nearest?, Nat.div_one, Nat.one_mul, if_true]
  split
  · rw [ofParts?, dif_pos ⟨by decide, by omega, .inr (by decide)⟩]
    exact ⟨_, rfl, Int.neg_neg_of_pos (by decide)⟩
  · next hne =>
    rw [ofParts?, dif_pos ⟨by omega, by omega, by omega⟩]
    exact ⟨_, rfl, by dsimp only; omega⟩

theorem one_pos : 0 < one := by decide +kernel

theorem ofInt_lt_zero {i : Int} (hlow : -2 ^ 63 ≤ i) (hneg : i < 0) : ofInt i < zero := by
  have hsign : i * one < 0 := Int.mul_neg_of_neg_of_pos hneg (Int.natCast_pos.mpr one_pos)
  have hmagnitude : (i * one).natAbs = i.natAbs * one := by
    rw [Int.natAbs_mul, Int.natAbs_natCast]
  have hpos : (i * one).natAbs ≠ 0 := by omega
  have hrange : (i * one).natAbs.log2 < 2096 := by
    rw [Nat.log2_lt hpos, hmagnitude]
    calc i.natAbs * one ≤ 2 ^ 63 * one := Nat.mul_le_mul_right _ (by omega)
      _ < 2 ^ 2096 := by decide +kernel
  obtain ⟨x, hx, hsignificand⟩ := nearest?_neg hpos hrange
  rw [ofInt, ofUnits?, decide_eq_true hsign, hx, Option.getD_some]
  exact (units_neg_iff x).mpr hsignificand

/-! ### Whole numbers of 53 bits -/

theorem one_eq_mul {shift : Nat} (h : shift ≤ 1074) : one = 2 ^ shift * 2 ^ (1074 - shift) := by
  rw [← Nat.pow_add, Nat.add_sub_cancel' h]
  rfl

/-- The digits of a whole number are shifted until the first of them is the first of 53. -/
theorem exists_units_eq {n : Nat} (h : n < 2 ^ 53) : ∃ x : Binary64, x.units = (n : Int) * one := by
  by_cases hzero : n = 0
  · refine ⟨zero, ?_⟩
    rw [hzero, Int.natCast_zero, Int.zero_mul]
    rfl
  · have hlog : n.log2 < 53 := (Nat.log2_lt hzero).mpr h
    obtain ⟨shift, hshift⟩ : ∃ shift, n.log2 + shift = 52 := ⟨52 - n.log2, by omega⟩
    have hlow : 2 ^ n.log2 * 2 ^ shift ≤ n * 2 ^ shift :=
      Nat.mul_le_mul_right _ (Nat.log2_self_le hzero)
    have hhigh : n * 2 ^ shift < 2 ^ (n.log2 + 1) * 2 ^ shift :=
      Nat.mul_lt_mul_of_pos_right Nat.lt_log2_self (Nat.two_pow_pos shift)
    rw [← Nat.pow_add, hshift] at hlow
    rw [← Nat.pow_add, Nat.add_right_comm, hshift] at hhigh
    refine ⟨⟨(n * 2 ^ shift : Nat), 1074 - shift, ?_, by omega, .inr ?_⟩, ?_⟩
    · rw [Int.natAbs_natCast]
      exact hhigh
    · rw [Int.natAbs_natCast]
      exact hlow
    · show ((n * 2 ^ shift : Nat) : Int) * 2 ^ (1074 - shift) = _
      rw [one_eq_mul (by omega : shift ≤ 1074), Int.natCast_mul, Int.natCast_mul, Int.mul_assoc]
      rfl

/-- **A whole number of at most 53 bits is held exactly.** -/
theorem units_ofInt {n : Nat} (h : n < 2 ^ 53) : (ofInt n).units = (n : Int) * one := by
  obtain ⟨x, hx⟩ := exists_units_eq h
  rw [ofInt, ← hx, ofUnits?_units, Option.getD_some]

theorem nearest?_nonneg {num den : Nat} {x : Binary64} (h : nearest? false num den = some x) :
    0 ≤ x.significand := by
  have hparts {significand : Int} {scale : Nat} (hsign : 0 ≤ significand)
      (hx : ofParts? significand scale = some x) : 0 ≤ x.significand := by
    unfold ofParts? at hx
    split at hx
    · cases hx
      exact hsign
    · cases hx
  simp only [nearest?, Bool.false_eq_true, if_false] at h
  split at h
  · exact hparts (by decide) h
  · exact hparts (Int.natCast_nonneg _) h

/-- Rounding keeps a number from becoming negative. -/
theorem zero_le_ofInt (n : Nat) : zero ≤ ofInt n := by
  have hunits {x : Binary64} (hsign : 0 ≤ x.significand) : zero ≤ x := by
    show 0 ≤ x.units
    exact Int.not_lt.mp (mt (units_neg_iff x).mp (Int.not_lt.mpr hsign))
  have hpositive : ¬ (n : Int) * one < 0 :=
    Int.not_lt.mpr (Int.mul_nonneg (Int.natCast_nonneg n) (Int.natCast_nonneg one))
  rw [ofInt, ofUnits?, decide_eq_false hpositive]
  cases hnearest : nearest? false ((n : Int) * one).natAbs 1 with
  | none => exact hunits (by decide)
  | some x => exact hunits (nearest?_nonneg hnearest)

end Binary64

/-- **Writing a number down loses nothing.** -/
@[simp] theorem Number.value_ofBinary64 (x : Binary64) : (Number.ofBinary64 x).value = x := by
  rw [ofBinary64]
  split
  · next h => exact Binary64.ofInt_floor h.1
  · rfl

end EventPattern
