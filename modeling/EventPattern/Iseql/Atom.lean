import EventPattern.Json.Printing
import EventPattern.Model.Basic

/-! Atoms and predicate calls of ISEQL.

An argument that is shaped like an identifier is written bare, every other one quoted as
in JSON, so the arguments of a call can be told apart. -/
namespace EventPattern.Iseql

def isLetter (c : Char) : Bool := c.isAlpha || c = '_'

def isTail (c : Char) : Bool := isLetter c || c.isDigit || c = ':' || c = '-'

/-- A letter or underscore, then letters, digits, underscores, colons and hyphens. -/
def isBare : List Char → Bool
  | [] => false
  | first :: rest => isLetter first && rest.all isTail

def atom (text : String) : String := if isBare text.toList then text else quote text

def call (p : Predicate) : String :=
  p.name ++ "(" ++ ", ".intercalate (p.args.map atom) ++ ")"

end EventPattern.Iseql
