import EventPattern.Number.Binary64

/-! Decimal text of binary64 numbers.

The decimals that round to a number fill an interval, its `Basin`. A printed number
takes the fewest digits that lie in it, and of those the nearest to the number:
`shortest` tries one power of ten after the other, coarsest first, and on each grid
only the two neighbours of the number can be nearest. `Layout` says how the digits
are then written. -/
namespace EventPattern

/-- `digits · 10 ^ exponent`. -/
structure Decimal where
  digits : Nat
  exponent : Int
deriving DecidableEq

/-- Which of two equally near decimals is taken. -/
inductive Tie where
  | evenDigit
  | larger
deriving DecidableEq

/-- A magnitude and the ends of the interval that rounds to it, in quarter units. -/
structure Basin where
  low : Nat
  value : Nat
  high : Nat
  /-- The ends themselves round to the value. -/
  closed : Bool

namespace Basin

/-- How many quarter units make one. -/
def one : Nat := 4 * Binary64.one

/-- The next smaller number is closer than the next larger one where the scale changes. -/
def of (x : Binary64) : Basin :=
  let step := 2 ^ x.scale
  let value := 4 * x.significand.natAbs * step
  let below := if x.significand.natAbs = 2 ^ 52 ∧ 0 < x.scale then step else 2 * step
  { low := value - below, value, high := value + 2 * step, closed := x.significand % 2 = 0 }

/-- The multiple of `num / den` quarter units that is in the basin, the nearer of two. -/
def pick (b : Basin) (tie : Tie) (num den : Nat) : Option Nat :=
  let inside (n : Nat) : Bool :=
    if b.closed then b.low * den ≤ n * num && n * num ≤ b.high * den
    else b.low * den < n * num && n * num < b.high * den
  let down := b.value * den / num
  let toDown := b.value * den - down * num
  let toUp := (down + 1) * num - b.value * den
  let upward : Bool :=
    toUp < toDown || (toUp = toDown && (tie = .larger || down % 2 = 1))
  match inside down, inside (down + 1) with
  | true, true => some (if upward then down + 1 else down)
  | true, false => some down
  | false, true => some (down + 1)
  | false, false => none

/-- The grid of the multiples of `10 ^ exponent`. -/
def pickAt (b : Basin) (tie : Tie) (exponent : Int) : Option Nat :=
  if 0 ≤ exponent then b.pick tie (10 ^ exponent.toNat * one) 1
  else b.pick tie one (10 ^ (-exponent).toNat)

end Basin

/-- The fewest digits that round to the magnitude of `x`, nearest first. -/
def Binary64.shortest (x : Binary64) (tie : Tie) : Decimal :=
  let basin := Basin.of x
  -- An upper bound of the decimal exponent; 17 digits below it always suffice.
  let top : Int := ((basin.value.log2 : Int) - 1076) * 30103 / 100000 + 2
  let grids := (List.range 20).map fun (i : Nat) => top - i
  let hit := grids.findSome? fun k => (basin.pickAt tie k).map fun n => Decimal.mk n k
  hit.getD ⟨0, 0⟩

/-- How a number is written. -/
structure Layout where
  tie : Tie
  /-- The exponents of the leading digit that are written positionally, `none` for all. -/
  positional : Option (Int × Int)
  /-- A whole number written positionally keeps a `.0`. -/
  pointZero : Bool
  zero : String

namespace Layout

def zeros (n : Nat) : List Char := List.replicate n '0'

/-- Digits with the point after the first `point` of them. -/
def positionalText (l : Layout) (digits : List Char) (point : Int) : List Char :=
  if point ≤ 0 then "0.".toList ++ zeros (-point).toNat ++ digits
  else if digits.length ≤ point then
    digits ++ zeros (point.toNat - digits.length) ++ (if l.pointZero then ".0".toList else [])
  else digits.take point.toNat ++ '.' :: digits.drop point.toNat

/-- One digit before the point, and the exponent with its sign. -/
def scientificText (digits : List Char) (exponent : Int) : List Char :=
  digits.take 1 ++ (if digits.length ≤ 1 then [] else '.' :: digits.drop 1) ++
    'e' :: (if exponent < 0 then '-' else '+') :: (Nat.repr exponent.natAbs).toList

def render (l : Layout) (x : Binary64) : String :=
  if x = .zero then l.zero
  else
    let decimal := x.shortest l.tie
    let digits := (Nat.repr decimal.digits).toList
    let point := digits.length + decimal.exponent
    let isPositional := match l.positional with
      | none => true
      | some (low, high) => low ≤ point - 1 && point - 1 ≤ high
    let magnitude :=
      if isPositional then l.positionalText digits point else scientificText digits (point - 1)
    String.ofList (if x.significand < 0 then '-' :: magnitude else magnitude)

/-- Plain numbers, as in ISEQL text and messages: never an exponent, no needless point. -/
def plain : Layout := { tie := .larger, positional := none, pointZero := false, zero := "0" }

/-- Fractional numbers in JSON: an exponent below 1e-5 and from 1e16 on. -/
def json : Layout :=
  { tie := .evenDigit, positional := some (-5, 15), pointZero := true, zero := "0.0" }

end Layout
end EventPattern
