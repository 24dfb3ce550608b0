/-! Finite binary64 numbers.

A number is held exactly, as a whole significand times a power of two, in the one
canonical form it has; so two numbers are numerically equal exactly when they are
equal, and there is a single zero. `units` is the view every comparison goes
through: each finite binary64 number is a whole multiple of 2^-1074.

`nearest?` is the only way a quotient becomes a number: it rounds to the nearest
one, a half to the even neighbour. -/
namespace EventPattern

-- Powers of whole numbers are the core library's, whatever algebra is in scope.
attribute [instance (high), default_instance (high + 1)] instPowNat

/-- The number `significand · 2 ^ (scale - 1074)`. -/
structure Binary64 where
  significand : Int
  scale : Nat
  canonical : significand.natAbs < 2 ^ 53 ∧ scale ≤ 2045 ∧
    (scale = 0 ∨ 2 ^ 52 ≤ significand.natAbs)
deriving DecidableEq

/-- The quotient rounded to a whole number, a half to the even neighbour. -/
def divHalfEven (num den : Nat) : Nat :=
  let quotient := num / den
  let rest := num % den
  if 2 * rest < den then quotient
  else if den < 2 * rest then quotient + 1
  else quotient + quotient % 2

namespace Binary64

/-- How many units make one. -/
def one : Nat := 2 ^ 1074

/-- The number as a multiple of 2^-1074. -/
def units (x : Binary64) : Int := x.significand * 2 ^ x.scale

def zero : Binary64 := ⟨0, 0, by decide⟩

def largest : Binary64 := ⟨2 ^ 53 - 1, 2045, by decide⟩

instance : Inhabited Binary64 := ⟨zero⟩

instance : LE Binary64 := ⟨fun x y => x.units ≤ y.units⟩
instance : LT Binary64 := ⟨fun x y => x.units < y.units⟩
instance : DecidableLE Binary64 := fun x y => inferInstanceAs (Decidable (x.units ≤ y.units))
instance : DecidableLT Binary64 := fun x y => inferInstanceAs (Decidable (x.units < y.units))

/-! ### Rounding -/

def ofParts? (significand : Int) (scale : Nat) : Option Binary64 :=
  if h : significand.natAbs < 2 ^ 53 ∧ scale ≤ 2045 ∧
      (scale = 0 ∨ 2 ^ 52 ≤ significand.natAbs) then
    some ⟨significand, scale, h⟩
  else
    none

/-- The number nearest to `num / den` units, `none` beyond the largest one. -/
def nearest? (negative : Bool) (num den : Nat) : Option Binary64 :=
  let scale := (num / den).log2 + 1 - 53
  let rounded := divHalfEven num (den * 2 ^ scale)
  let signed (n : Nat) : Int := if negative then -n else n
  if rounded = 2 ^ 53 then ofParts? (signed (2 ^ 52)) (scale + 1)
  else ofParts? (signed rounded) scale

def ofUnits? (units : Int) : Option Binary64 := nearest? (units < 0) units.natAbs 1

/-- The number nearest to a whole number; beyond the largest number, that one. -/
def ofInt (i : Int) : Binary64 := (ofUnits? (i * one)).getD largest

/-- The number nearest to `± digits · 10 ^ exponent`, `none` beyond the largest one. -/
def ofDecimal? (negative : Bool) (digits : Nat) (exponent : Int) : Option Binary64 :=
  -- Outside these bounds the answer is known, and the power of ten could be huge.
  let magnitude : Int := (Nat.repr digits).length + exponent
  if digits = 0 ∨ magnitude < -330 then some zero
  else if 310 < magnitude then none
  else if 0 ≤ exponent then nearest? negative (digits * 10 ^ exponent.toNat * one) 1
  else nearest? negative (digits * one) (10 ^ (-exponent).toNat)

/-! ### Whole parts -/

def isWhole (x : Binary64) : Bool := x.units % one = 0

/-- The largest whole number that is at most `x`. -/
def floor (x : Binary64) : Int := x.units / one

/-- The floor of `x + 1/2`, the sum being rounded to a number first. -/
def roundHalfUp (x : Binary64) : Int :=
  ((ofUnits? (x.units + one / 2)).getD x).floor

end Binary64
end EventPattern
