import EventPattern.Json.Printing
import EventPattern.Json.Reading

/-! What is quoted can be read back.

Between its quotes a quoted text has no quote but behind a backslash, so a reader finds its end,
whatever follows (`cutQuoted_escaped`), and what stands between the quotes means the text again
(`unescape_escaped`). -/
namespace EventPattern.Json

/-- The raw text up to the closing quote, and what comes behind it. -/
def cutQuoted : List Char → Option (List Char × List Char)
  | [] => none
  | '"' :: rest => some ([], rest)
  | '\\' :: c :: rest => (cutQuoted rest).map fun (raw, behind) => ('\\' :: c :: raw, behind)
  | c :: rest => (cutQuoted rest).map fun (raw, behind) => (c :: raw, behind)

/-- Reads a text of which the first quote is read already. -/
def readQuoted (chars : List Char) : Option (List Char × List Char) :=
  (cutQuoted chars).bind fun (raw, behind) => (unescape raw).map (·, behind)

/-! ### Hexadecimal digits -/

theorem forall_lowerHex {p : Char → Prop} [DecidablePred p]
    (h : "0123456789abcdef".toList.all (p ·)) (n : Nat) : p (lowerHex n) := by
  have hdigits : ∀ k < 16, (Nat.toDigits 16 k).headD '0' ∈ "0123456789abcdef".toList := by decide
  exact of_decide_eq_true (List.all_eq_true.mp h _ (hdigits (n % 16) (Nat.mod_lt n (by decide))))

/-- Between quotes the character does not mean anything but itself. -/
def IsOrdinary (c : Char) : Prop := c ≠ '"' ∧ c ≠ '\\'

instance (c : Char) : Decidable (IsOrdinary c) :=
  inferInstanceAs (Decidable (c ≠ '"' ∧ c ≠ '\\'))

theorem isOrdinary_lowerHex (n : Nat) : IsOrdinary (lowerHex n) := forall_lowerHex (by decide) n

theorem hexValues_lowerHex {n : Nat} (h : n < 32) :
    hexValues ['0', '0', lowerHex (n / 16), lowerHex n] = n := by
  revert n
  decide

theorem unescape_hex {a b c d : Char} (h : hexValues [a, b, c, d] < 0xD800) (rest : List Char) :
    unescape ('\\' :: 'u' :: a :: b :: c :: d :: rest) =
      (unescape rest).map (Char.ofNat (hexValues [a, b, c, d]) :: ·) := by
  rw [unescape.eq_def]
  exact if_pos (.inl h)

/-! ### One character -/

/-- How a character is written between quotes: with a letter that stands for it, with its number,
or as itself. -/
theorem escapeChar_cases (c : Char) :
    (∃ letter, escapeChar c = ['\\', letter] ∧
      ∀ rest, unescape ('\\' :: letter :: rest) = (unescape rest).map (c :: ·)) ∨
    (c.toNat < 32 ∧
      escapeChar c = ['\\', 'u', '0', '0', lowerHex (c.toNat / 16), lowerHex c.toNat]) ∨
    (IsOrdinary c ∧ escapeChar c = [c]) := by
  unfold escapeChar
  split
  all_goals try exact .inl ⟨_, rfl, fun _ => rfl⟩
  · next hquote hbackslash _ _ _ _ _ =>
    split
    · next hcontrol => exact .inr (.inl ⟨hcontrol, rfl⟩)
    · exact .inr (.inr ⟨⟨hquote, hbackslash⟩, rfl⟩)

theorem cutQuoted_cons {c : Char} (hc : IsOrdinary c) (rest : List Char) :
    cutQuoted (c :: rest) = (cutQuoted rest).map fun (raw, behind) => (c :: raw, behind) :=
  cutQuoted.eq_4 c rest hc.1 fun _ _ hbackslash _ => hc.2 hbackslash

theorem cutQuoted_escapeChar (c : Char) (rest : List Char) :
    cutQuoted (escapeChar c ++ rest) =
      (cutQuoted rest).map fun (raw, behind) => (escapeChar c ++ raw, behind) := by
  obtain ⟨letter, hletter, -⟩ | ⟨-, hnumber⟩ | ⟨hc, hself⟩ := escapeChar_cases c
  · rw [hletter]
    rfl
  · rw [hnumber]
    -- Behind the backslash and its letter there are four digits.
    show cutQuoted ('\\' :: 'u' :: '0' :: '0' :: lowerHex _ :: lowerHex _ :: rest) = _
    rw [cutQuoted, cutQuoted_cons (by decide), cutQuoted_cons (by decide),
      cutQuoted_cons (isOrdinary_lowerHex _), cutQuoted_cons (isOrdinary_lowerHex _)]
    simp only [Option.map_map]
    rfl
  · rw [hself]
    exact cutQuoted_cons hc rest

theorem unescape_escapeChar (c : Char) (rest : List Char) :
    unescape (escapeChar c ++ rest) = (unescape rest).map (c :: ·) := by
  obtain ⟨letter, hletter, hmeans⟩ | ⟨hcontrol, hnumber⟩ | ⟨hc, hself⟩ := escapeChar_cases c
  · rw [hletter]
    exact hmeans rest
  · have hvalue := hexValues_lowerHex hcontrol
    have hread := unescape_hex (by rw [hvalue]; omega) rest
    rw [hvalue, Char.ofNat_toNat] at hread
    rw [hnumber]
    exact hread
  · rw [hself]
    simp [unescape, hc.2]

/-! ### All characters -/

theorem cutQuoted_escaped (chars rest : List Char) :
    cutQuoted (chars.flatMap escapeChar ++ '"' :: rest) =
      some (chars.flatMap escapeChar, rest) := by
  induction chars with
  | nil => rfl
  | cons c chars ih =>
    rw [List.flatMap_cons, List.append_assoc, cutQuoted_escapeChar, ih, Option.map_some]

theorem unescape_escaped (chars : List Char) :
    unescape (chars.flatMap escapeChar) = some chars := by
  induction chars with
  | nil => rfl
  | cons c chars ih => rw [List.flatMap_cons, unescape_escapeChar, ih, Option.map_some]

/-- **A quoted text is read back, whatever follows.** -/
theorem readQuoted_escaped (chars rest : List Char) :
    readQuoted (chars.flatMap escapeChar ++ '"' :: rest) = some (chars, rest) := by
  rw [readQuoted, cutQuoted_escaped]
  show (unescape _).map _ = _
  rw [unescape_escaped, Option.map_some]

end EventPattern.Json
