/-! Ascending order by a key.

Text compares character by character, by code point; a list of texts compares by its
first difference. Sorting inserts one item after the other, the last one first, each in
front of the items that it may stand before; so it is stable, what has the same key keeping
its order. -/
namespace EventPattern

variable {α κ : Type}

-- Lists compare as in the core library, whatever order theory is in scope.
attribute [instance (high)] List.instLE

/-- Puts an item in front of the first one that it may stand before. -/
def insertBy (before : α → α → Bool) (item : α) : List α → List α
  | [] => [item]
  | first :: rest =>
    if before item first then item :: first :: rest else first :: insertBy before item rest

def sortBy (before : α → α → Bool) (items : List α) : List α := items.foldr (insertBy before) []

def sortOn [LE κ] [DecidableLE κ] (key : α → κ) (items : List α) : List α :=
  sortBy (fun a b => decide (key a ≤ key b)) items

end EventPattern
