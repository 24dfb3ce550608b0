import EventPattern.Json.Tree

/-! Reading JSON values off trees.

What the grammar leaves open is refused here: a number beyond binary64, half of a
surrogate pair, and brackets nested more than `maxDepth` deep.

A number that is not kept whole is the binary64 number nearest to what is written, whatever
its digits (`Numeral.real?`). Readers that take up to 64 bits of digits and scale them by a
power of ten in binary64 arithmetic are faster and agree with this as long as both are
binary64 numbers, up to fifteen digits and exponents of 22; beyond that their last bits may
differ. -/
namespace EventPattern.Json

/-- How many brackets may be open at once. -/
def maxDepth : Nat := 127

/-! ### Strings -/

def hexValue (c : Char) : Nat :=
  if c.isDigit then c.toNat - '0'.toNat
  else if 'a' ≤ c then c.toNat - 'a'.toNat + 10
  else c.toNat - 'A'.toNat + 10

def hexValues (digits : List Char) : Nat :=
  digits.foldl (fun n c => n * 16 + hexValue c) 0

def shortEscape (c : Char) : Char :=
  match c with
  | 'b' => '\x08'
  | 'f' => '\x0c'
  | 'n' => '\n'
  | 'r' => '\r'
  | 't' => '\t'
  | c => c

/-- The characters that raw string text stands for. -/
def unescape : List Char → Option (List Char)
  | '\\' :: 'u' :: a :: b :: c :: d :: rest =>
    let high := hexValues [a, b, c, d]
    if high < 0xD800 ∨ 0xDFFF < high then (unescape rest).map (.ofNat high :: ·)
    else if 0xDC00 ≤ high then none
    else match rest with
      | '\\' :: 'u' :: a :: b :: c :: d :: rest =>
        let low := hexValues [a, b, c, d]
        if 0xDC00 ≤ low ∧ low ≤ 0xDFFF then
          (unescape rest).map (.ofNat (0x10000 + (high - 0xD800) * 0x400 + (low - 0xDC00)) :: ·)
        else none
      | _ => none
  | '\\' :: c :: rest => (unescape rest).map (shortEscape c :: ·)
  | c :: rest => (unescape rest).map (c :: ·)
  | [] => some []

def stringOfRaw? (raw : List Char) : Option String := (unescape raw).map String.ofList

/-! ### Numbers -/

def natOfDigits (digits : List Char) : Nat :=
  digits.foldl (fun n c => n * 10 + (c.toNat - '0'.toNat)) 0

def Numeral.real? (n : Numeral) (digits : Nat) (exponent : Int) : Option Number :=
  (Binary64.ofDecimal? n.negative digits exponent).map fun x =>
    if n.negative ∧ x = .zero then .negativeZero else .real x

/-- A whole number within 64 bits is kept as such; a zero with a minus sign is not one. -/
def Numeral.number? (n : Numeral) : Option Number :=
  match n.fraction, n.exponent with
  | none, none =>
    let magnitude : Int := natOfDigits n.whole
    let value := if n.negative then -magnitude else magnitude
    if h : -2 ^ 63 ≤ value ∧ value < 2 ^ 64 ∧ ¬(n.negative ∧ magnitude = 0) then
      some (.int value ⟨h.1, h.2.1⟩)
    else n.real? magnitude.toNat 0
  | fraction, exponent =>
    let places := fraction.getD []
    let shift : Int := match exponent with
      | some (true, digits) => -natOfDigits digits
      | some (false, digits) => natOfDigits digits
      | none => 0
    n.real? (natOfDigits (n.whole ++ places)) (shift - places.length)

/-! ### Values -/

namespace Tree

mutual

/-- The value of a tree in which at most `depth` brackets are open at once. -/
def value? (depth : Nat) : Tree → Option Json
  | .null => some .null
  | .bool b => some (.bool b)
  | .number lexeme => ((Numeral.ofLexeme? lexeme).bind Numeral.number?).map .number
  | .string raw => (stringOfRaw? raw).map .string
  | .array items => if depth = 0 then none else (values? (depth - 1) items).map .array
  | .object entries =>
    if depth = 0 then none
    else (entryValues? (depth - 1) entries).map fun read => .object (Fields.ofEntries read)

def values? (depth : Nat) : List Tree → Option (List Json)
  | [] => some []
  | item :: rest => do
    let value ← value? depth item
    return value :: (← values? depth rest)

def entryValues? (depth : Nat) : List (List Char × Tree) → Option (List (String × Json))
  | [] => some []
  | (raw, item) :: rest => do
    let key ← stringOfRaw? raw
    let value ← value? depth item
    return (key, value) :: (← entryValues? depth rest)

end

end Tree

/-- The value of a text, `none` when the text is no JSON. -/
def ofText? (text : String) : Option Json :=
  (tree? text).bind (Tree.value? maxDepth)

end EventPattern.Json
