/-! Places in a document.

A location is the way from the root of a document down to one of its values, by keys and
by positions; `text` is how it is written: `$.relations[0].params.delta`. -/
namespace EventPattern

inductive Location where
  | root
  | key (parent : Location) (name : String)
  | index (parent : Location) (position : Nat)
deriving DecidableEq

namespace Location

def keyText (base name : String) : String := base ++ "." ++ name

def indexText (base : String) (position : Nat) : String := base ++ "[" ++ Nat.repr position ++ "]"

def text : Location → String
  | root => "$"
  | key parent name => keyText parent.text name
  | index parent position => indexText parent.text position

end Location
end EventPattern
