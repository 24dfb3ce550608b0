import EventPattern.Json.Printing

/-! The five parameters of a temporal relation and the values they take.

ζ and η compare endpoints, δ and ε bound the distance between endpoints, and ρ is an
amount. A key has a Latin and a Greek spelling. `ParamKind.Value` is the type of the
values of a kind, so a parameter never holds a value of another kind. -/
namespace EventPattern

/-! ### Comparators -/

inductive Comparator where
  | less
  | atMost
  | equal
  | atLeast
  | greater
deriving DecidableEq

namespace Comparator

def all : List Comparator := [less, atMost, equal, atLeast, greater]

def symbol : Comparator → String
  | less => "<"
  | atMost => "≤"
  | equal => "="
  | atLeast => "≥"
  | greater => ">"

/-- The symbol, or its spelling in ASCII. -/
def ofText? (text : String) : Option Comparator :=
  if text = "<" then some less
  else if text = "≤" ∨ text = "<=" then some atMost
  else if text = "=" then some equal
  else if text = "≥" ∨ text = ">=" then some atLeast
  else if text = ">" then some greater
  else none

def ofJson? (json : Json) : Option Comparator := json.string?.bind ofText?

/-- The message for a text that is no comparator. -/
def refusal (text : String) : String := "invalid comparator '" ++ text ++ "'"

end Comparator

/-! ### Amounts and thresholds -/

/-- A number that is not negative. -/
def nonNegative? (json : Json) : Option Binary64 :=
  (json.number?.map Number.value).bind fun x => if .zero ≤ x then some x else none

/-- A bound on a distance, or none at all. -/
inductive Threshold where
  | finite (bound : Binary64) (nonneg : .zero ≤ bound)
  | infinite
deriving DecidableEq

namespace Threshold

def infinitySign : String := "∞"

def ofNumber? (x : Binary64) : Option Threshold :=
  if h : .zero ≤ x then some (.finite x h) else none

def ofJson? : Json → Option Threshold
  | .string text => if text = infinitySign then some infinite else none
  | .number n => ofNumber? n.value
  | _ => none

def isInfinite (t : Threshold) : Bool := t = infinite

def text : Threshold → String
  | finite bound _ => Layout.plain.render bound
  | infinite => infinitySign

def toJson : Threshold → Json
  | finite bound _ => .number (.ofBinary64 bound)
  | infinite => .string infinitySign

/-- The message for a value that is no threshold. -/
def refusal (json : Json) : String :=
  "threshold must be a number >= 0 or '∞', got " ++ json.compact

end Threshold

/-! ### Keys -/

inductive ParamKind where
  | comparator
  | threshold
  | amount
deriving DecidableEq

inductive ParamKey where
  | zeta
  | eta
  | delta
  | epsilon
  | rho
deriving DecidableEq

inductive Spelling where
  | latin
  | greek
deriving DecidableEq

namespace ParamKey

/-- In the order in which they are written. -/
def all : List ParamKey := [zeta, eta, delta, epsilon, rho]

def latin : ParamKey → String
  | zeta => "zeta"
  | eta => "eta"
  | delta => "delta"
  | epsilon => "epsilon"
  | rho => "rho"

def greek : ParamKey → String
  | zeta => "ζ"
  | eta => "η"
  | delta => "δ"
  | epsilon => "ε"
  | rho => "ρ"

def kind : ParamKey → ParamKind
  | zeta | eta => .comparator
  | delta | epsilon => .threshold
  | rho => .amount

def ofName? (name : String) : Option (ParamKey × Spelling) :=
  all.findSome? fun key =>
    if key.latin = name then some (key, .latin)
    else if key.greek = name then some (key, .greek)
    else none

/-- The message for a name that is no key. -/
def refusal (name : String) : String := "unknown parameter key '" ++ name ++ "'"

end ParamKey

/-! ### Values -/

namespace ParamKind

@[reducible] def Value : ParamKind → Type
  | comparator => Comparator
  | threshold => Threshold
  | amount => Binary64

instance : (kind : ParamKind) → DecidableEq kind.Value
  | comparator => inferInstanceAs (DecidableEq Comparator)
  | threshold => inferInstanceAs (DecidableEq Threshold)
  | amount => inferInstanceAs (DecidableEq Binary64)

/-- Reads a value that is in the closed domain of its kind. -/
def read? : (kind : ParamKind) → Json → Option kind.Value
  | comparator, json => Comparator.ofJson? json
  | threshold, json => Threshold.ofJson? json
  | amount, json => nonNegative? json

/-- As `read?`, but an amount may be negative. -/
def readAny? : (kind : ParamKind) → Json → Option kind.Value
  | comparator, json => Comparator.ofJson? json
  | threshold, json => Threshold.ofJson? json
  | amount, json => json.number?.map Number.value

def text : (kind : ParamKind) → kind.Value → String
  | comparator, c => c.symbol
  | threshold, t => t.text
  | amount, x => Layout.plain.render x

/-- The value as an author would write it. -/
def toJson : (kind : ParamKind) → kind.Value → Json
  | comparator, c => .string c.symbol
  | threshold, t => t.toJson
  | amount, x => .number (.ofBinary64 x)

end ParamKind

abbrev ParamKey.Value (key : ParamKey) : Type := key.kind.Value

end EventPattern
