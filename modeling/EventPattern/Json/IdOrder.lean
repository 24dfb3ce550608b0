import EventPattern.Json.Basic
import EventPattern.Order

/-! The order of what carries an id.

An array whose items all carry a text `id` is a set of named things, so its order says
nothing; `sortById` puts every such array, at every depth, into ascending order of the ids
and leaves every other array as it is. -/
namespace EventPattern.Json

/-- Inner arrays are already in order. -/
def orderItems (items : List Json) : List Json :=
  if items.all fun item => item.id?.isSome then sortOn (fun item => item.id?.getD "") items
  else items

mutual

def sortById : Json → Json
  | .array items => .array (orderItems (sortItemsById items))
  | .object fields => .object (sortFieldsById fields)
  | scalar => scalar

def sortItemsById : List Json → List Json
  | [] => []
  | item :: rest => sortById item :: sortItemsById rest

def sortFieldsById : List (String × Json) → List (String × Json)
  | [] => []
  | (key, value) :: rest => (key, sortById value) :: sortFieldsById rest

end

end EventPattern.Json
