import EventPattern.Order

/-! The order of texts by their bytes.

Text compares by code points. Its bytes in UTF-8 compare in the same way (`utf8_lt_iff`): two
different characters differ in their first byte or, where they take the same number of bytes,
at the first digit to the base 64 in which their code points differ. So it is with lists of
texts (`map_utf8_lt_iff`), as far as their first difference. -/
namespace EventPattern

/-- The bytes of a text in UTF-8. -/
def utf8 (text : String) : List UInt8 := text.toUTF8.data.toList

theorem utf8_eq (text : String) : utf8 text = text.toList.flatMap String.utf8EncodeChar := by
  have h := @String.utf8Encode_toList text
  show text.toByteArray.data.toList = _
  rw [← h]
  simp [List.utf8Encode]

/-- Bytes tell characters apart in the order of the code points, whatever comes after. -/
theorem utf8EncodeChar_lt {c d : Char} (h : c < d) (a b : List UInt8) :
    String.utf8EncodeChar c ++ a < String.utf8EncodeChar d ++ b := by
  have hcd : c.val.toNat < d.val.toNat := h
  have hd : d.val.toNat < 0x110000 := by
    have := d.valid
    simp only [UInt32.isValidChar, Nat.isValidChar] at this
    omega
  -- The first digit to the base 64 in which they differ.
  have hdigit : c.val.toNat / 262144 < d.val.toNat / 262144 ∨
      c.val.toNat / 262144 = d.val.toNat / 262144 ∧ (c.val.toNat / 4096 < d.val.toNat / 4096 ∨
        c.val.toNat / 4096 = d.val.toNat / 4096 ∧ (c.val.toNat / 64 < d.val.toNat / 64 ∨
          c.val.toNat / 64 = d.val.toNat / 64)) := by omega
  unfold String.utf8EncodeChar
  dsimp only
  repeat' split
  -- One goal for each pair of lengths, from one byte to four.
  all_goals
    simp only [List.cons_append, List.nil_append, List.cons_lt_cons_iff, UInt8.lt_iff_toNat_lt,
      ← UInt8.toNat_inj, UInt8.toNat_ofNat']
    rcases hdigit with h | ⟨-, h | ⟨-, h | h⟩⟩ <;> omega

theorem flatMap_utf8EncodeChar_lt {a b : List Char} (h : a < b) :
    a.flatMap String.utf8EncodeChar < b.flatMap String.utf8EncodeChar := by
  induction a generalizing b with
  | nil =>
    cases b with
    | nil => exact absurd h (List.lt_irrefl [])
    | cons d b =>
      rw [List.flatMap_cons]
      cases hd : String.utf8EncodeChar d with
      | nil => exact absurd hd String.utf8EncodeChar_ne_nil
      | cons byte bytes => exact List.nil_lt_cons byte _
  | cons c a ih =>
    cases b with
    | nil => exact absurd h (List.not_lt_nil _)
    | cons d b =>
      rw [List.flatMap_cons, List.flatMap_cons]
      rcases List.cons_lt_cons_iff.mp h with hcd | ⟨rfl, hab⟩
      · exact utf8EncodeChar_lt hcd _ _
      · exact List.append_left_lt (ih hab)

/-- **The bytes of texts compare as the texts do.** -/
theorem utf8_lt_iff (s t : String) : utf8 s < utf8 t ↔ s < t := by
  have hlt {s t : String} (h : s < t) : utf8 s < utf8 t := by
    rw [utf8_eq, utf8_eq]
    exact flatMap_utf8EncodeChar_lt h
  refine ⟨fun h => ?_, hlt⟩
  by_cases hsame : s = t
  · subst hsame
    exact absurd h (List.lt_irrefl _)
  · by_cases hst : s < t
    · exact hst
    · have hts : t < s := Std.lt_of_le_of_ne (String.not_lt.mp hst) (Ne.symm hsame)
      exact absurd h (List.lt_asymm (hlt hts))

theorem utf8_inj {s t : String} : utf8 s = utf8 t ↔ s = t := by
  refine ⟨fun h => ?_, congrArg utf8⟩
  have hle {s t : String} (h : utf8 s = utf8 t) : s ≤ t :=
    String.not_lt.mp fun hlt => List.lt_irrefl _ (h ▸ (utf8_lt_iff t s).mpr hlt)
  exact String.le_antisymm (hle h) (hle h.symm)

theorem map_utf8_lt_iff (texts others : List String) :
    texts.map utf8 < others.map utf8 ↔ texts < others := by
  induction texts generalizing others with
  | nil =>
    cases others with
    | nil => exact iff_of_false (List.lt_irrefl _) (List.lt_irrefl _)
    | cons other rest => exact iff_of_true (List.nil_lt_cons _ _) (List.nil_lt_cons _ _)
  | cons text rest ih =>
    cases others with
    | nil => exact iff_of_false (List.not_lt_nil _) (List.not_lt_nil _)
    | cons other more =>
      rw [List.map_cons, List.map_cons, List.cons_lt_cons_iff, List.cons_lt_cons_iff,
        utf8_lt_iff, utf8_inj, ih]

end EventPattern
