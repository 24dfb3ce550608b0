import EventPattern.Json.Reading
import EventPattern.Proofs.Number.Basin
import Mathlib.Data.List.TakeDrop

/-! Plain numbers are read back.

A plain number is written with all its digits and no exponent, and it reads as the number it was
(`Number.ofText?_render`): where the point goes, and how many zeros are filled in, changes the
numeral but never the decimal that it stands for. So no two numbers are written alike
(`Layout.render_plain_inj`). -/
namespace EventPattern

/-! ### Digits -/

theorem natOfDigits_eq (digits : List Char) :
    Json.natOfDigits digits = Nat.ofDigitChars 10 digits 0 := by
  rw [Json.natOfDigits, Nat.ofDigitChars_eq_foldl]
  simp only [Nat.mul_comm 10]

theorem natOfDigits_zeros_append (n : Nat) (digits : List Char) :
    Json.natOfDigits (Layout.zeros n ++ digits) = Json.natOfDigits digits := by
  rw [natOfDigits_eq, natOfDigits_eq, Layout.zeros, Nat.ofDigitChars_append,
    Nat.ofDigitChars_replicate_zero, Nat.mul_zero]

theorem natOfDigits_append_zeros (digits : List Char) (n : Nat) :
    Json.natOfDigits (digits ++ Layout.zeros n) = Json.natOfDigits digits * 10 ^ n := by
  rw [natOfDigits_eq, natOfDigits_eq, Layout.zeros, Nat.ofDigitChars_append,
    Nat.ofDigitChars_replicate_zero, Nat.mul_comm]

theorem natOfDigits_toDigits (n : Nat) : Json.natOfDigits (Nat.toDigits 10 n) = n := by
  rw [natOfDigits_eq, Nat.ofDigitChars_toDigits (by decide) (by decide)]

theorem head?_toDigits_ne_zero {n : Nat} (hn : 0 < n) : (Nat.toDigits 10 n).head? ≠ some '0' := by
  induction n using Nat.strongRecOn with
  | ind n ih =>
    rw [Nat.toDigits_eq_if (by decide)]
    split
    · next hsmall =>
      have hdigit : ∀ n < 10, 0 < n → n.digitChar ≠ '0' := by decide
      simpa using hdigit n hsmall hn
    · next hlarge =>
      have hfront := ih (n / 10) (by omega) (by omega)
      rw [List.head?_append]
      cases h : (Nat.toDigits 10 (n / 10)).head? with
      | none => exact absurd (List.head?_eq_none_iff.mp h) Nat.toDigits_ne_nil
      | some c =>
        rw [h] at hfront
        exact hfront

/-! ### Numerals -/

namespace Json.Numeral

/-- Digits that may stand before the point. -/
structure IsWhole (whole : List Char) : Prop where
  digits : ∀ c ∈ whole, c.isDigit
  filled : whole ≠ []
  lead : whole = ['0'] ∨ whole.head? ≠ some '0'

theorem IsWhole.append {whole rest : List Char} (h : IsWhole whole)
    (hlead : whole.head? ≠ some '0') (hrest : ∀ c ∈ rest, c.isDigit) : IsWhole (whole ++ rest) where
  digits c hc := (List.mem_append.mp hc).elim (h.digits c) (hrest c)
  filled := List.append_ne_nil_of_left_ne_nil h.filled rest
  lead := by
    obtain ⟨c, digits, rfl⟩ := List.exists_cons_of_ne_nil h.filled
    exact .inr hlead

theorem IsWhole.take {whole : List Char} (h : IsWhole whole) (hlead : whole.head? ≠ some '0')
    {n : Nat} (hn : 0 < n) : IsWhole (whole.take n) where
  digits c hc := h.digits c (List.mem_of_mem_take hc)
  filled hnil := (List.take_eq_nil_iff.mp hnil).elim (Nat.ne_of_gt hn) h.filled
  lead := by
    rw [List.head?_take, if_neg (Nat.ne_of_gt hn)]
    exact .inr hlead

theorem isWhole_toDigits {n : Nat} (hn : 0 < n) : IsWhole (Nat.toDigits 10 n) where
  digits _ hc := Nat.isDigit_of_mem_toDigits (by decide) (by decide) hc
  filled := Nat.toDigits_ne_nil
  lead := .inr (head?_toDigits_ne_zero hn)

theorem span_isDigit {digits : List Char} (hdigits : ∀ c ∈ digits, c.isDigit) (rest : List Char)
    (hrest : ∀ c ∈ rest.head?, ¬ c.isDigit) :
    (digits ++ rest).span Char.isDigit = (digits, rest) := by
  have hstop : rest.takeWhile Char.isDigit = [] ∧ rest.dropWhile Char.isDigit = rest := by
    cases rest with
    | nil => exact ⟨rfl, rfl⟩
    | cons c rest =>
      have hc := hrest c rfl
      exact ⟨List.takeWhile_cons_of_neg hc, List.dropWhile_cons_of_neg hc⟩
  rw [List.span_eq_takeWhile_dropWhile, List.takeWhile_append_of_pos hdigits,
    List.dropWhile_append_of_pos hdigits, hstop.1, hstop.2, List.append_nil]

theorem IsWhole.not_sign {whole : List Char} (h : IsWhole whole) :
    ∃ c digits, whole = c :: digits ∧ c ≠ '-' := by
  obtain ⟨c, digits, rfl⟩ := List.exists_cons_of_ne_nil h.filled
  refine ⟨c, digits, rfl, ?_⟩
  rintro rfl
  exact absurd (h.digits _ List.mem_cons_self) (by decide)

theorem ofLexeme?_whole {whole : List Char} (h : IsWhole whole) (negative : Bool) :
    ofLexeme? (if negative then '-' :: whole else whole) =
      some { negative, whole, fraction := none, exponent := none } := by
  have hspan := span_isDigit h.digits [] (by simp)
  have hlead := h.lead
  obtain ⟨c, digits, rfl, hc⟩ := h.not_sign
  rw [List.append_nil] at hspan
  simp only [List.cons.injEq, ne_eq] at hlead
  unfold ofLexeme? guard
  cases negative <;>
    simp only [if_true, Bool.false_eq_true, if_false, hspan, hc, hlead,
      List.cons.injEq, false_and, imp_false, not_false_eq_true, implies_true, ne_eq,
      reduceCtorEq, and_self] <;>
    rfl

theorem ofLexeme?_point {whole places : List Char} (h : IsWhole whole)
    (hdigits : ∀ c ∈ places, c.isDigit) (hplaces : places ≠ []) (negative : Bool) :
    ofLexeme? (if negative then '-' :: (whole ++ '.' :: places) else whole ++ '.' :: places) =
      some { negative, whole, fraction := some places, exponent := none } := by
  have hspan := span_isDigit h.digits ('.' :: places) (by simp)
  have hspan' := span_isDigit hdigits [] (by simp)
  have hlead := h.lead
  obtain ⟨c, digits, rfl, hc⟩ := h.not_sign
  rw [List.append_nil] at hspan'
  rw [List.cons_append] at hspan
  simp only [List.cons.injEq, ne_eq] at hlead
  unfold ofLexeme? guard
  cases negative <;>
    simp only [if_true, Bool.false_eq_true, if_false, hspan, hspan', hc, hlead,
      List.cons_append, List.cons.injEq, false_and, imp_false, not_false_eq_true, implies_true,
      ne_eq, reduceCtorEq, and_self, Option.some.injEq, hplaces] <;>
    rfl

/-! ### Their values -/

theorem value_real? {x : Binary64} (hx : x ≠ .zero) {n : Numeral} {digits : Nat} {exponent : Int}
    (h : Binary64.ofDecimal? n.negative digits exponent = some x) :
    (n.real? digits exponent).map Number.value = some x := by
  rw [real?, h, Option.map_some, if_neg (fun hzero => hx hzero.2), Option.map_some, Number.value]

theorem number?_whole {x : Binary64} (hx : x ≠ .zero) {whole : List Char}
    (h : (Basin.of x).HoldsDecimal ⟨natOfDigits whole, 0⟩) :
    (number? ⟨x.significand < 0, whole, none, none⟩).map Number.value = some x := by
  have hread := Binary64.ofDecimal?_of_holds hx h
  obtain ⟨hdigits, -, -⟩ := Binary64.size_of_holds hx h
  have hsign : (if decide (x.significand < 0) = true then -(natOfDigits whole : Int)
      else natOfDigits whole) < 0 ↔ x.significand < 0 := by
    dsimp only at hdigits
    split <;> simp_all <;> omega
  have hmagnitude : (if decide (x.significand < 0) = true then -(natOfDigits whole : Int)
      else natOfDigits whole).natAbs = natOfDigits whole := by
    split <;> omega
  obtain ⟨i, hi⟩ : ∃ i, i = if decide (x.significand < 0) = true then -(natOfDigits whole : Int)
      else natOfDigits whole := ⟨_, rfl⟩
  have hread' : number? ⟨x.significand < 0, whole, none, none⟩ =
      if h : -2 ^ 63 ≤ i ∧ i < 2 ^ 64 ∧
          ¬(decide (x.significand < 0) = true ∧ (natOfDigits whole : Int) = 0) then
        some (.int i ⟨h.1, h.2.1⟩)
      else real? ⟨x.significand < 0, whole, none, none⟩ (natOfDigits whole) 0 := by
    rw [hi]
    rfl
  rw [← hi] at hsign hmagnitude
  rw [hread']
  split
  · rw [Option.map_some, Number.value, Binary64.ofInt_of_holds hsign (hmagnitude.symm ▸ h)]
  · exact value_real? hx hread

theorem number?_point {x : Binary64} (hx : x ≠ .zero) {whole places : List Char}
    (h : (Basin.of x).HoldsDecimal ⟨natOfDigits (whole ++ places), -places.length⟩) :
    (number? ⟨x.significand < 0, whole, some places, none⟩).map Number.value = some x := by
  have hread := Binary64.ofDecimal?_of_holds hx h
  simp only [number?, Option.getD_some, Int.zero_sub]
  exact value_real? hx hread

end Json.Numeral

/-! ### Plain numbers -/

namespace Number

/-- The number that a text is a numeral of. -/
def ofText? (text : String) : Option Number :=
  (Json.Numeral.ofLexeme? text.toList).bind Json.Numeral.number?

open Json Json.Numeral

variable {x : Binary64} {digits : Nat} {exponent : Int}

theorem ofText?_whole (hx : x ≠ .zero) {whole : List Char} (h : IsWhole whole)
    (hholds : (Basin.of x).HoldsDecimal ⟨natOfDigits whole, 0⟩) :
    (ofText? (.ofList (if x.significand < 0 then '-' :: whole else whole))).map value = some x := by
  have hlexeme := ofLexeme?_whole h (x.significand < 0)
  simp only [decide_eq_true_eq] at hlexeme
  rw [ofText?, String.toList_ofList, hlexeme]
  exact number?_whole hx hholds

theorem ofText?_point (hx : x ≠ .zero) {whole places : List Char} (h : IsWhole whole)
    (hdigits : ∀ c ∈ places, c.isDigit) (hplaces : places ≠ [])
    (hholds : (Basin.of x).HoldsDecimal ⟨natOfDigits (whole ++ places), -places.length⟩) :
    (ofText? (.ofList (if x.significand < 0 then '-' :: (whole ++ '.' :: places)
      else whole ++ '.' :: places))).map value = some x := by
  have hlexeme := ofLexeme?_point h hdigits hplaces (x.significand < 0)
  simp only [decide_eq_true_eq] at hlexeme
  rw [ofText?, String.toList_ofList, hlexeme]
  exact number?_point hx hholds

theorem positionalText_before {text : List Char} {point : Int} (h : point ≤ 0) :
    Layout.plain.positionalText text point =
      ['0'] ++ '.' :: (Layout.zeros (-point).toNat ++ text) := by
  rw [Layout.positionalText, if_pos h]
  rfl

theorem positionalText_behind {text : List Char} {point : Int} (hpos : 0 < point)
    (h : text.length ≤ point) :
    Layout.plain.positionalText text point = text ++ Layout.zeros (point.toNat - text.length) := by
  rw [Layout.positionalText, if_neg (by omega), if_pos h]
  exact List.append_nil _

theorem positionalText_between {text : List Char} {point : Int} (hpos : 0 < point)
    (h : point < text.length) :
    Layout.plain.positionalText text point =
      text.take point.toNat ++ '.' :: text.drop point.toNat := by
  rw [Layout.positionalText, if_neg (by omega), if_neg (by omega)]

/-- Wherever the point goes, the digits of a decimal in the basin of a number are read as that
number. -/
theorem ofText?_positionalText (hx : x ≠ .zero)
    (h : (Basin.of x).HoldsDecimal ⟨digits, exponent⟩) {text : List Char}
    (htext : text = Layout.plain.positionalText (Nat.toDigits 10 digits)
      ((Nat.toDigits 10 digits).length + exponent)) :
    (ofText? (.ofList (if x.significand < 0 then '-' :: text else text))).map value = some x := by
  have hpos : 0 < digits := Nat.pos_of_ne_zero (Binary64.size_of_holds hx h).1
  have hzeros : ∀ n, ∀ c ∈ Layout.zeros n, c.isDigit := fun n c hc => by
    rw [List.eq_of_mem_replicate hc]
    decide
  have hwhole := isWhole_toDigits hpos
  have hlead := head?_toDigits_ne_zero hpos
  have hvalue := natOfDigits_toDigits digits
  generalize Nat.toDigits 10 digits = written at *
  have hlength : 0 < written.length := List.length_pos_iff.mpr hwhole.filled
  by_cases hbefore : (written.length : Int) + exponent ≤ 0
  · -- All digits stand behind the point.
    rw [htext, positionalText_before hbefore]
    refine ofText?_point hx ⟨by simp, by simp, .inl rfl⟩
      (fun c hc => (List.mem_append.mp hc).elim (hzeros _ c) (hwhole.digits c))
      (List.append_ne_nil_of_right_ne_nil _ hwhole.filled) ?_
    have hplaces (n : Nat) : natOfDigits (['0'] ++ (Layout.zeros n ++ written)) = digits :=
      (natOfDigits_zeros_append (n + 1) written).trans hvalue
    have hexponent : -(((Layout.zeros (-((written.length : Int) + exponent)).toNat
        ++ written).length : Nat) : Int) = exponent := by
      rw [Layout.zeros, List.length_append, List.length_replicate]
      omega
    rw [hexponent, hplaces]
    exact h
  · by_cases hbehind : (written.length : Int) ≤ written.length + exponent
    · -- There is no point.
      rw [htext, positionalText_behind (by omega) hbehind]
      refine ofText?_whole hx (hwhole.append hlead (hzeros _)) ?_
      have hcount : ((written.length : Int) + exponent).toNat - written.length =
          exponent.toNat := by
        omega
      rw [hcount, natOfDigits_append_zeros, hvalue]
      exact (Basin.holdsDecimal_whole_iff (by omega)).mp h
    · rw [htext, positionalText_between (by omega) (by omega)]
      refine ofText?_point hx (hwhole.take hlead (by omega))
        (fun c hc => hwhole.digits c (List.mem_of_mem_drop hc)) (by simp; omega) ?_
      have hexponent : -(((written.drop ((written.length : Int) + exponent).toNat).length : Nat)
          : Int) = exponent := by
        rw [List.length_drop]
        omega
      rw [hexponent, List.take_append_drop, hvalue]
      exact h

/-- **A plain number is read as the number that was written.** -/
theorem ofText?_render (x : Binary64) :
    (ofText? (Layout.plain.render x)).map value = some x := by
  by_cases hx : x = .zero
  · rw [hx]
    decide +kernel
  · rw [Layout.render, if_neg hx]
    have hread := ofText?_positionalText hx (Binary64.holds_shortest hx .larger) rfl
    rw [← Nat.toList_repr] at hread
    exact hread

end Number

theorem Layout.render_plain_inj {x y : Binary64} (h : plain.render x = plain.render y) : x = y := by
  have hread := Number.ofText?_render x
  rw [h, Number.ofText?_render y] at hread
  exact (Option.some.inj hread).symm

end EventPattern
