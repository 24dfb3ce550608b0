import EventPattern.Number.Decimal

/-! JSON values.

A number remembers how it was written only as far as that can be seen again: a whole
number within 64 bits, any other number, or the zero with a minus sign. `Number.value`
is what it is worth.

An object is the list of its fields. Every object read from text has its keys in
ascending order, each once; the values this library builds keep that order too, except
where a text format fixes another one. -/
namespace EventPattern

inductive Number where
  /-- A whole number, unsigned or signed, of 64 bits. -/
  | int (value : Int) (inRange : -2 ^ 63 ≤ value ∧ value < 2 ^ 64)
  /-- Written with a fraction or an exponent, or beyond 64 bits. -/
  | real (value : Binary64)
  | negativeZero
deriving DecidableEq

namespace Number

def value : Number → Binary64
  | int i _ => .ofInt i
  | real x => x
  | negativeZero => .zero

/-- Whole numbers that binary64 holds without gaps are written without a fraction. -/
def ofBinary64 (x : Binary64) : Number :=
  if h : x.isWhole ∧ x.floor.natAbs < 2 ^ 53 then .int x.floor (by omega) else .real x

def ofUInt64 (n : UInt64) : Number := .int n.toNat (by have := n.toNat_lt; omega)

def ofInt64 (i : Int64) : Number :=
  .int i.toInt (by have := i.le_toInt; have := i.toInt_lt; omega)

def toUInt64? : Number → Option UInt64
  | int i _ => if 0 ≤ i then some (.ofNat i.toNat) else none
  | _ => none

def toInt64? : Number → Option Int64
  | int i _ => if i < 2 ^ 63 then some (.ofInt i) else none
  | _ => none

end Number

inductive Json where
  | null
  | bool (value : Bool)
  | number (value : Number)
  | string (value : String)
  | array (items : List Json)
  | object (fields : List (String × Json))
deriving Inhabited

namespace Json

/-- The entries of an object. -/
abbrev Fields := List (String × Json)

namespace Fields

def get? (fields : Fields) (key : String) : Option Json :=
  (fields.find? fun field => field.1 == key).map (·.2)

/-- Puts a field in its place, in place of an earlier one of that key. -/
def insert (key : String) (value : Json) : Fields → Fields
  | [] => [(key, value)]
  | field :: rest =>
    if key = field.1 then (key, value) :: rest
    else if key < field.1 then (key, value) :: field :: rest
    else field :: insert key value rest

@[simp] theorem get?_cons (field : String × Json) (rest : Fields) (key : String) :
    get? (field :: rest) key = if field.1 = key then some field.2 else get? rest key := by
  by_cases h : field.1 = key <;> simp [get?, h]

/-- Ascending by key; of a repeated key the last value counts. -/
def ofEntries (entries : List (String × Json)) : Fields :=
  entries.foldl (fun fields entry => fields.insert entry.1 entry.2) []

end Fields

/-! ### Building -/

/-- An object whose absent fields are left out. -/
def record (fields : List (String × Option Json)) : Json :=
  .object (fields.filterMap fun field => field.2.map (field.1, ·))

def strings (texts : List String) : Json := .array (texts.map .string)

def ofOption : Option Json → Json
  | none => .null
  | some value => value

/-! ### Looking -/

def string? : Json → Option String
  | .string text => some text
  | _ => none

def bool? : Json → Option Bool
  | .bool b => some b
  | _ => none

def number? : Json → Option Number
  | .number n => some n
  | _ => none

def array? : Json → Option (List Json)
  | .array items => some items
  | _ => none

def object? : Json → Option Fields
  | .object fields => some fields
  | _ => none

/-- The value of an object's field. -/
def get? (json : Json) (key : String) : Option Json :=
  json.object?.bind (·.get? key)

/-- The fields of a record, which may also be written as the array of its first fields in
the order of their declaration. -/
def recordFields? (declared : List String) : Json → Option Fields
  | .object fields => some fields
  | .array items => if items.length ≤ declared.length then some (declared.zip items) else none
  | _ => none

/-- The text under `id`, by which values are ordered and found. -/
def id? (json : Json) : Option String := (json.get? "id").bind string?

end Json
end EventPattern
