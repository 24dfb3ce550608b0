import EventPattern.Model.Basic

/-! Editing intervals on a timeline.

Ranges are created, moved and resized within bounds. A pointer may stand between two
ticks or anywhere at all (`Position`); it counts as the nearest tick, halves upwards, and an
edit is made in whole ticks (`Edit`). All sums are taken over the whole numbers, so nothing
overflows on the way. An interval is edited as the range of its ticks, of which none is
below zero. -/
namespace EventPattern

/-- Where a pointer stands, on the scale of ticks. -/
inductive Position where
  | point (x : Binary64)
  | before
  | beyond
  | nowhere
deriving DecidableEq

/-- The nearest tick, halves upwards; no place at all counts as zero. -/
def Position.tick : Position → Int64
  | .point x => .ofIntClamp x.roundHalfUp
  | .before => .minValue
  | .beyond => .maxValue
  | .nowhere => 0

/-! ### Bounds -/

/-- The ticks that are allowed, ends included. -/
structure Bounds where
  minTick : Int64 := 0
  maxTick : Option Int64 := none
deriving DecidableEq

namespace Bounds

def clamp (b : Bounds) (tick : Int64) : Int64 :=
  let raised := max tick b.minTick
  match b.maxTick with
  | some top => min raised top
  | none => raised

/-- Without an upper bound, the last tick there is. -/
def top (b : Bounds) : Int64 := b.maxTick.getD .maxValue

def span (b : Bounds) : Int := b.top.toInt - b.minTick.toInt

/-- The same bounds, with nothing below `lowest` allowed. -/
def raisedTo (b : Bounds) (lowest : Int64) : Bounds := { b with minTick := max b.minTick lowest }

end Bounds

/-! ### Ranges -/

/-- A range of ticks, not always the right way round. -/
@[ext] structure TickRange where
  start : Int64
  stop : Int64
deriving DecidableEq

namespace TickRange

/-- The range whose ends are two ticks in either order. -/
def between (a b : Int64) : TickRange := if a ≤ b then ⟨a, b⟩ else ⟨b, a⟩

def ordered (r : TickRange) : TickRange := between r.start r.stop

/-- A new range between two positions, within the bounds. -/
def create (a b : Position) (bounds : Bounds) : TickRange :=
  let drawn := between a.tick b.tick
  between (bounds.clamp drawn.start) (bounds.clamp drawn.stop)

/-- The ticks from one end to the other, which may be more than a tick can count. -/
def length (r : TickRange) : Int := r.stop.toInt - r.start.toInt

/-- Where the start comes to stand when the range is shifted as far as the bounds allow. -/
def shiftedStart (r : TickRange) (delta : Int64) (bounds : Bounds) : Int :=
  max (min (r.start.toInt + delta.toInt) (bounds.top.toInt - r.length)) bounds.minTick.toInt

/-- The range shifted with its length kept, as far as the bounds allow; a range longer
than the bounds becomes the bounds. -/
def shift (r : TickRange) (delta : Int64) (bounds : Bounds) : TickRange :=
  if bounds.span < r.length then ⟨bounds.minTick, max bounds.top bounds.minTick⟩
  else
    let start := r.shiftedStart delta bounds
    ⟨.ofIntClamp start, .ofIntClamp (start + r.length)⟩

/-- Drags the start, not past the end. -/
def dragStart (r : TickRange) (drop : Int64) (bounds : Bounds) : TickRange :=
  ⟨min (bounds.clamp drop) r.stop, r.stop⟩

/-- Drags the end, not before the start. -/
def dragStop (r : TickRange) (drop : Int64) (bounds : Bounds) : TickRange :=
  ⟨r.start, max (bounds.clamp drop) r.start⟩

end TickRange

/-! ### Edits -/

inductive Edge where
  | start
  | stop
deriving DecidableEq

/-- What is done to a range, in whole ticks. -/
inductive Edit where
  | move (delta : Int64)
  | resize (edge : Edge) (drop : Int64)
deriving DecidableEq

namespace TickRange

/-- An edit puts the ends in order first. -/
def edit (r : TickRange) (bounds : Bounds) : Edit → TickRange
  | .move delta => r.ordered.shift delta bounds
  | .resize .start drop => r.ordered.dragStart drop bounds
  | .resize .stop drop => r.ordered.dragStop drop bounds

def move (r : TickRange) (delta : Position) (bounds : Bounds) : TickRange :=
  r.edit bounds (.move delta.tick)

def resize (r : TickRange) (edge : Edge) (drop : Position) (bounds : Bounds) : TickRange :=
  r.edit bounds (.resize edge drop.tick)

end TickRange

/-! ### Intervals -/

namespace Interval

/-- The ticks of an interval, as far as a range reaches. -/
def range (i : Interval) : TickRange :=
  ⟨.ofIntClamp i.start.toNat, .ofIntClamp i.stop.toNat⟩

/-- The interval with other ticks, none of them below zero. -/
def withRange (i : Interval) (r : TickRange) : Interval :=
  { i with start := .ofNat r.start.toInt.toNat, stop := .ofNat r.stop.toInt.toNat }

def edit (i : Interval) (bounds : Bounds) (e : Edit) : Interval :=
  i.withRange (i.range.edit (bounds.raisedTo 0) e)

def move (i : Interval) (delta : Position) (bounds : Bounds) : Interval :=
  i.edit bounds (.move delta.tick)

def resize (i : Interval) (edge : Edge) (drop : Position) (bounds : Bounds) : Interval :=
  i.edit bounds (.resize edge drop.tick)

end Interval
end EventPattern
