import EventPattern.Timeline

/-! Edited ranges stay within their bounds.

A move places the start of a range, and a resize one of its ends, as near as it can to where it
was to be (`Nearest`); the rest follows from the places there are to choose from. `edited_edit`
says so of one edit, within any bounds; where their edges have crossed, the ends are still in
order. As a move adds and subtracts ticks it needs more than their 64 bits on the way, but nowhere
more than 128, and the sums that it keeps are ticks again (`Moved.sums`, `Moved.exact`).

An interval goes through the range of its ticks and back. That changes nothing as long as its
ticks are within what a range can hold (`Interval.Fits`), and as an edit leaves them there it goes
on for as many edits as there are (`timeline_stays_within_bounds`). -/
namespace EventPattern

/-! ### Places -/

/-- Of the places from `low` to `high` the one that is nearest to the target. -/
structure Nearest (low high target place : Int) : Prop where
  low_le : low ≤ place
  le_high : place ≤ high
  nearest : ∀ other, low ≤ other → other ≤ high → other ≠ place →
    (place - target).natAbs < (other - target).natAbs

theorem nearest_clamp {low high : Int} (h : low ≤ high) (target : Int) :
    Nearest low high target (max (min target high) low) where
  low_le := by omega
  le_high := by omega
  nearest := by omega

/-! ### Ticks as whole numbers -/

theorem toInt_max (a b : Int64) : (max a b).toInt = max a.toInt b.toInt := by
  show (if a ≤ b then b else a).toInt = _
  simp only [Int64.le_iff_toInt_le]
  split <;> omega

theorem toInt_min (a b : Int64) : (min a b).toInt = min a.toInt b.toInt := by
  show (if a ≤ b then a else b).toInt = _
  simp only [Int64.le_iff_toInt_le]
  split <;> omega

/-- What lies between two ticks is a tick. -/
theorem toInt_ofIntClamp_between (low high : Int64) {n : Int} (hlow : low.toInt ≤ n)
    (hhigh : n ≤ high.toInt) : (Int64.ofIntClamp n).toInt = n :=
  Int64.toInt_ofIntClamp (Int.le_trans low.minValue_le_toInt hlow)
    (Int.le_trans hhigh high.toInt_le)

namespace Bounds

/-- The edges have not crossed. -/
def IsOpen (b : Bounds) : Prop := b.minTick ≤ b.top

theorem isOpen_iff (b : Bounds) : b.IsOpen ↔ b.minTick.toInt ≤ b.top.toInt :=
  Int64.le_iff_toInt_le

theorem toInt_clamp (b : Bounds) (tick : Int64) :
    (b.clamp tick).toInt = min (max tick.toInt b.minTick.toInt) b.top.toInt := by
  obtain ⟨minTick, maxTick⟩ := b
  cases maxTick with
  | none =>
    have htick := tick.toInt_le
    have hmin := minTick.toInt_le
    show (max tick minTick).toInt = min (max tick.toInt minTick.toInt) Int64.maxValue.toInt
    rw [toInt_max]
    omega
  | some top =>
    show (min (max tick minTick) top).toInt = _
    rw [toInt_min, toInt_max]
    rfl

end Bounds

/-! ### One edit of a range -/

/-- A signed number of 128 bits. -/
def IsWide (n : Int) : Prop := -2 ^ 127 ≤ n ∧ n < 2 ^ 127

def Edge.other : Edge → Edge
  | .start => .stop
  | .stop => .start

namespace TickRange

def tickAt (r : TickRange) : Edge → Int64
  | .start => r.start
  | .stop => r.stop

/-- The range lies between the edges of the bounds. -/
structure Within (r : TickRange) (b : Bounds) : Prop where
  start : b.minTick ≤ r.start
  stop : r.stop ≤ b.top

/-- The ticks to which one end of a range can be dragged. -/
def reach (r : TickRange) (b : Bounds) : Edge → TickRange
  | .start => ⟨b.minTick, r.stop⟩
  | .stop => ⟨r.start, b.top⟩

/-- All that is added up or subtracted to move a range. -/
def sums (r : TickRange) (delta : Int64) (b : Bounds) : List Int :=
  [r.length, b.span, r.start.toInt + delta.toInt, b.top.toInt - r.length,
    r.shiftedStart delta b, r.shiftedStart delta b + r.length]

/-- What a move makes of a range that has its ends in order. -/
structure Moved (b : Bounds) (delta : Int64) (before after : TickRange) : Prop where
  inside : b.IsOpen → after.Within b
  length : before.length ≤ b.span → after.length = before.length
  nearest : before.length ≤ b.span →
    Nearest b.minTick.toInt (b.top.toInt - before.length) (before.start.toInt + delta.toInt)
      after.start.toInt
  filled : b.IsOpen → b.span < before.length → after = ⟨b.minTick, b.top⟩
  /-- Nothing overflows on the way. -/
  sums : ∀ n ∈ before.sums delta b, IsWide n
  /-- What is kept are the sums themselves, so nothing is cut off from them. -/
  exact : before.length ≤ b.span → after.start.toInt = before.shiftedStart delta b ∧
    after.stop.toInt = before.shiftedStart delta b + before.length

/-- What dragging one end makes of a range that has its ends in order. -/
structure Dragged (b : Bounds) (edge : Edge) (drop : Int64) (before after : TickRange) : Prop where
  kept : after.tickAt edge.other = before.tickAt edge.other
  inside : before.Within b → after.Within b
  nearest : before.Within b →
    Nearest (before.reach b edge).start.toInt (before.reach b edge).stop.toInt drop.toInt
      (after.tickAt edge).toInt

/-- What an edit makes of a range, whichever way round it was. -/
structure Edited (before : TickRange) (b : Bounds) (e : Edit) (after : TickRange) : Prop where
  ordered : after.start ≤ after.stop
  effect : match e with
    | .move delta => Moved b delta before.ordered after
    | .resize edge drop => Dragged b edge drop before.ordered after

theorem Within.toInt {r : TickRange} (hr : r.start ≤ r.stop) {b : Bounds} (h : r.Within b) :
    b.minTick.toInt ≤ r.start.toInt ∧ r.start.toInt ≤ r.stop.toInt ∧
      r.stop.toInt ≤ b.top.toInt :=
  ⟨Int64.le_iff_toInt_le.mp h.start, Int64.le_iff_toInt_le.mp hr, Int64.le_iff_toInt_le.mp h.stop⟩

theorem ordered_le (r : TickRange) : r.ordered.start ≤ r.ordered.stop := by
  unfold ordered between
  split
  · next h => exact h
  · next h =>
    rw [Int64.le_iff_toInt_le] at h
    show r.stop ≤ r.start
    exact Int64.le_iff_toInt_le.mpr (by omega)

/-! ### Moving -/

section Move
variable (r : TickRange) (delta : Int64) (b : Bounds)

theorem isWide_sums : ∀ n ∈ r.sums delta b, IsWide n := by
  have hword (tick : Int64) : -2 ^ 63 ≤ tick.toInt ∧ tick.toInt < 2 ^ 63 :=
    ⟨tick.le_toInt, tick.toInt_lt⟩
  have hstart := hword r.start
  have hstop := hword r.stop
  have hdelta := hword delta
  have hmin := hword b.minTick
  have htop := hword b.top
  simp only [sums, List.forall_mem_cons, IsWide, length, Bounds.span, shiftedStart]
  refine ⟨?_, ?_, ?_, ?_, ?_, ?_, List.forall_mem_nil _⟩ <;> omega

variable {r b} (hfits : r.length ≤ b.span)
include hfits

theorem nearest_shiftedStart : Nearest b.minTick.toInt (b.top.toInt - r.length)
    (r.start.toInt + delta.toInt) (r.shiftedStart delta b) := by
  unfold Bounds.span at hfits
  exact nearest_clamp (by omega) _

theorem toInt_shift (hr : 0 ≤ r.length) :
    (r.shift delta b).start.toInt = r.shiftedStart delta b ∧
      (r.shift delta b).stop.toInt = r.shiftedStart delta b + r.length := by
  obtain ⟨hlow, hhigh, -⟩ := nearest_shiftedStart delta hfits
  rw [shift, if_neg (by omega)]
  exact ⟨toInt_ofIntClamp_between b.minTick b.top hlow (by omega),
    toInt_ofIntClamp_between b.minTick b.top (by omega) (by omega)⟩

end Move

theorem length_nonneg {r : TickRange} (hr : r.start ≤ r.stop) : 0 ≤ r.length := by
  rw [Int64.le_iff_toInt_le] at hr
  unfold length
  omega

theorem shift_of_long {r : TickRange} {b : Bounds} (hb : b.IsOpen) (hlong : b.span < r.length)
    (delta : Int64) : r.shift delta b = ⟨b.minTick, b.top⟩ := by
  have htop : max b.top b.minTick = b.top := by
    rw [Bounds.isOpen_iff] at hb
    rw [← Int64.toInt_inj, toInt_max]
    omega
  rw [shift, if_pos hlong, htop]

theorem moved_shift {r : TickRange} (hr : r.start ≤ r.stop) (delta : Int64) (b : Bounds) :
    Moved b delta r (r.shift delta b) where
  inside hb := by
    by_cases hfits : r.length ≤ b.span
    · obtain ⟨hstart, hstop⟩ := toInt_shift delta hfits (length_nonneg hr)
      obtain ⟨hlow, hhigh, -⟩ := nearest_shiftedStart delta hfits
      exact ⟨Int64.le_iff_toInt_le.mpr (by omega), Int64.le_iff_toInt_le.mpr (by omega)⟩
    · rw [shift_of_long hb (by omega)]
      exact ⟨Int64.le_refl _, Int64.le_refl _⟩
  length hfits := by
    obtain ⟨hstart, hstop⟩ := toInt_shift delta hfits (length_nonneg hr)
    show (r.shift delta b).stop.toInt - (r.shift delta b).start.toInt = r.length
    omega
  nearest hfits := by
    rw [(toInt_shift delta hfits (length_nonneg hr)).1]
    exact nearest_shiftedStart delta hfits
  filled hb hlong := shift_of_long hb hlong delta
  sums := isWide_sums r delta b
  exact hfits := toInt_shift delta hfits (length_nonneg hr)

/-- Also crossed edges give a range that is the right way round. -/
theorem shift_le {r : TickRange} (hr : r.start ≤ r.stop) (delta : Int64) (b : Bounds) :
    (r.shift delta b).start ≤ (r.shift delta b).stop := by
  rw [Int64.le_iff_toInt_le]
  by_cases hfits : r.length ≤ b.span
  · have hlength := length_nonneg hr
    obtain ⟨hstart, hstop⟩ := toInt_shift delta hfits hlength
    omega
  · rw [shift, if_pos (by omega)]
    show b.minTick.toInt ≤ (max b.top b.minTick).toInt
    rw [toInt_max]
    omega

/-! ### Dragging an end -/

section Drag
variable (r : TickRange) (drop : Int64) (b : Bounds)

theorem toInt_dragStart : (r.dragStart drop b).start.toInt =
    min (min (max drop.toInt b.minTick.toInt) b.top.toInt) r.stop.toInt := by
  rw [dragStart, toInt_min, Bounds.toInt_clamp]

theorem toInt_dragStop : (r.dragStop drop b).stop.toInt =
    max (min (max drop.toInt b.minTick.toInt) b.top.toInt) r.start.toInt := by
  rw [dragStop, toInt_max, Bounds.toInt_clamp]

theorem dragStart_le : (r.dragStart drop b).start ≤ (r.dragStart drop b).stop := by
  rw [Int64.le_iff_toInt_le, toInt_dragStart]
  exact Int.min_le_right _ _

theorem dragStop_le : (r.dragStop drop b).start ≤ (r.dragStop drop b).stop := by
  rw [Int64.le_iff_toInt_le, toInt_dragStop]
  exact Int.le_max_right _ _

variable {r b} (hr : r.start ≤ r.stop) (hwithin : r.Within b)
include hr hwithin

theorem nearest_dragStart : Nearest b.minTick.toInt r.stop.toInt drop.toInt
    (r.dragStart drop b).start.toInt := by
  obtain ⟨hstart, hle, hstop⟩ := hwithin.toInt hr
  have hplace : (r.dragStart drop b).start.toInt =
      max (min drop.toInt r.stop.toInt) b.minTick.toInt := by
    rw [toInt_dragStart]
    omega
  rw [hplace]
  exact nearest_clamp (by omega) _

theorem nearest_dragStop : Nearest r.start.toInt b.top.toInt drop.toInt
    (r.dragStop drop b).stop.toInt := by
  obtain ⟨hstart, hle, hstop⟩ := hwithin.toInt hr
  have hplace : (r.dragStop drop b).stop.toInt =
      max (min drop.toInt b.top.toInt) r.start.toInt := by
    rw [toInt_dragStop]
    omega
  rw [hplace]
  exact nearest_clamp (by omega) _

end Drag

section Dragged
variable {r : TickRange} (hr : r.start ≤ r.stop) (drop : Int64) (b : Bounds)
include hr

theorem dragged_dragStart : Dragged b .start drop r (r.dragStart drop b) where
  kept := rfl
  inside hwithin :=
    ⟨Int64.le_iff_toInt_le.mpr (nearest_dragStart drop hr hwithin).low_le, hwithin.stop⟩
  nearest := nearest_dragStart drop hr

theorem dragged_dragStop : Dragged b .stop drop r (r.dragStop drop b) where
  kept := rfl
  inside hwithin :=
    ⟨hwithin.start, Int64.le_iff_toInt_le.mpr (nearest_dragStop drop hr hwithin).le_high⟩
  nearest := nearest_dragStop drop hr

end Dragged

/-- **One edit**, of any range within any bounds. -/
theorem edited_edit (r : TickRange) (b : Bounds) (e : Edit) : r.Edited b e (r.edit b e) := by
  have hr := r.ordered_le
  cases e with
  | move delta => exact ⟨shift_le hr delta b, moved_shift hr delta b⟩
  | resize edge drop =>
    cases edge with
    | start => exact ⟨dragStart_le _ drop b, dragged_dragStart hr drop b⟩
    | stop => exact ⟨dragStop_le _ drop b, dragged_dragStop hr drop b⟩

end TickRange

/-! ### One edit of an interval -/

theorem Bounds.raisedTo_nonneg (b : Bounds) : 0 ≤ (b.raisedTo 0).minTick.toInt := by
  show 0 ≤ (max b.minTick 0).toInt
  rw [toInt_max]
  exact Int.le_max_right _ _

namespace TickRange

/-- No tick of the range is below zero. -/
structure Nonneg (r : TickRange) : Prop where
  start : 0 ≤ r.start.toInt
  stop : 0 ≤ r.stop.toInt

theorem Nonneg.ordered {r : TickRange} (h : r.Nonneg) : r.ordered.Nonneg := by
  unfold TickRange.ordered between
  split
  · exact h
  · exact ⟨h.stop, h.start⟩

theorem isOpen_of_fits {r : TickRange} (hr : r.start ≤ r.stop) {b : Bounds}
    (hfits : r.length ≤ b.span) : b.IsOpen := by
  have hlength := length_nonneg hr
  unfold Bounds.span at hfits
  exact b.isOpen_iff.mpr (by omega)

theorem Within.isOpen {r : TickRange} (hr : r.start ≤ r.stop) {b : Bounds} (h : r.Within b) :
    b.IsOpen := Int64.le_trans h.start (Int64.le_trans hr h.stop)

/-- An edit goes below zero only where the bounds do. -/
theorem nonneg_edit {r : TickRange} (hr : r.Nonneg) {b : Bounds} (hb : b.IsOpen)
    (hlow : 0 ≤ b.minTick.toInt) (e : Edit) : (r.edit b e).Nonneg := by
  have hordered := hr.ordered
  have hstart : 0 ≤ (r.edit b e).start.toInt := by
    cases e with
    | move delta =>
      have hinside := (moved_shift r.ordered_le delta b).inside hb
      exact Int.le_trans hlow (Int64.le_iff_toInt_le.mp hinside.start)
    | resize edge drop =>
      cases edge with
      | start =>
        have hstop := hordered.stop
        rw [Bounds.isOpen_iff] at hb
        show 0 ≤ (r.ordered.dragStart drop b).start.toInt
        rw [toInt_dragStart]
        omega
      | stop => exact hordered.start
  exact ⟨hstart, Int.le_trans hstart (Int64.le_iff_toInt_le.mp (edited_edit r b e).ordered)⟩

/-- What an edit does within crossed edges is not undone by cutting off what is below zero. -/
theorem Edited.of_crossed {r made stored : TickRange} {b : Bounds} {e : Edit}
    (h : r.Edited b e made) (hr : r.Nonneg) (hb : ¬ b.IsOpen)
    (hstored : ∀ edge, (stored.tickAt edge).toInt = max (made.tickAt edge).toInt 0) :
    r.Edited b e stored where
  ordered := by
    have hstart : stored.start.toInt = max made.start.toInt 0 := hstored .start
    have hstop : stored.stop.toInt = max made.stop.toInt 0 := hstored .stop
    have hmade := Int64.le_iff_toInt_le.mp h.ordered
    exact Int64.le_iff_toInt_le.mpr (by omega)
  effect := by
    have hlong : ¬ r.ordered.length ≤ b.span := fun hfits => hb (isOpen_of_fits r.ordered_le hfits)
    cases e with
    | move delta =>
      exact {
        inside := fun hopen => absurd hopen hb
        length := fun hfits => absurd hfits hlong
        nearest := fun hfits => absurd hfits hlong
        filled := fun hopen => absurd hopen hb
        sums := h.effect.sums
        exact := fun hfits => absurd hfits hlong }
    | resize edge drop =>
      have hkept : (made.tickAt edge.other).toInt = (r.ordered.tickAt edge.other).toInt :=
        congrArg Int64.toInt h.effect.kept
      have hnonneg : 0 ≤ (r.ordered.tickAt edge.other).toInt := by
        cases edge with
        | start => exact hr.ordered.stop
        | stop => exact hr.ordered.start
      exact {
        kept := by
          rw [← Int64.toInt_inj, hstored]
          omega
        inside := fun hwithin => absurd (hwithin.isOpen r.ordered_le) hb
        nearest := fun hwithin => absurd (hwithin.isOpen r.ordered_le) hb }

end TickRange

namespace Interval

/-- The ticks of the interval are within what a range can hold. -/
structure Fits (i : Interval) : Prop where
  start : i.start.toNat < 2 ^ 63
  stop : i.stop.toNat < 2 ^ 63

/-- The range has the ticks of the interval. -/
structure HasTicks (i : Interval) (r : TickRange) : Prop where
  start : r.start.toInt = i.start.toNat
  stop : r.stop.toInt = i.stop.toNat

theorem Fits.hasTicks {i : Interval} (h : i.Fits) : i.HasTicks i.range := by
  have hmin := Int64.toInt_minValue
  have hmax := Int64.toInt_maxValue
  have hstart := h.start
  have hstop := h.stop
  exact ⟨toInt_ofIntClamp_between .minValue .maxValue (by omega) (by omega),
    toInt_ofIntClamp_between .minValue .maxValue (by omega) (by omega)⟩

/-- A tick is stored as it is, and as zero if it is below zero. -/
theorem toNat_stored (tick : Int64) :
    ((UInt64.ofNat tick.toInt.toNat).toNat : Int) = max tick.toInt 0 := by
  have htick := tick.toInt_lt
  have hsmall : tick.toInt.toNat < 2 ^ 64 := by omega
  rw [UInt64.toNat_ofNat_of_lt' hsmall]
  exact Int.ofNat_toNat _

theorem fits_withRange (i : Interval) (r : TickRange) : (i.withRange r).Fits := by
  have hsmall (tick : Int64) : (UInt64.ofNat tick.toInt.toNat).toNat < 2 ^ 63 := by
    have hstored := toNat_stored tick
    have htick := tick.toInt_lt
    omega
  exact ⟨hsmall r.start, hsmall r.stop⟩

theorem tickAt_range_withRange (i : Interval) (r : TickRange) (edge : Edge) :
    ((i.withRange r).range.tickAt edge).toInt = max (r.tickAt edge).toInt 0 := by
  obtain ⟨hstart, hstop⟩ := (fits_withRange i r).hasTicks
  cases edge with
  | start => exact hstart.trans (toNat_stored r.start)
  | stop => exact hstop.trans (toNat_stored r.stop)

/-- What an edit makes of an interval, whichever way round it was. -/
structure Edited (before : Interval) (b : Bounds) (e : Edit) (after : Interval) : Prop where
  ordered : after.start ≤ after.stop
  read : before.HasTicks before.range
  written : after.HasTicks after.range
  effect : before.range.Edited (b.raisedTo 0) e after.range
  /-- Nothing is cut off unless the edges have crossed. -/
  stored : (b.raisedTo 0).IsOpen → after.range = before.range.edit (b.raisedTo 0) e

theorem range_edit_of_isOpen {i : Interval} (hi : i.range.Nonneg) {b : Bounds}
    (hb : (b.raisedTo 0).IsOpen) (e : Edit) :
    (i.edit b e).range = i.range.edit (b.raisedTo 0) e := by
  have hmade := TickRange.nonneg_edit hi hb b.raisedTo_nonneg e
  have hstart := tickAt_range_withRange i (i.range.edit (b.raisedTo 0) e) .start
  have hstop := tickAt_range_withRange i (i.range.edit (b.raisedTo 0) e) .stop
  rw [TickRange.tickAt, TickRange.tickAt, Int.max_eq_left hmade.start, Int64.toInt_inj] at hstart
  rw [TickRange.tickAt, TickRange.tickAt, Int.max_eq_left hmade.stop, Int64.toInt_inj] at hstop
  exact TickRange.ext hstart hstop

theorem edited_edit {i : Interval} (h : i.Fits) (b : Bounds) (e : Edit) :
    i.Edited b e (i.edit b e) := by
  have hread := h.hasTicks
  have hwritten : (i.edit b e).HasTicks (i.edit b e).range := (fits_withRange i _).hasTicks
  have hnonneg : i.range.Nonneg :=
    ⟨hread.start ▸ Int.natCast_nonneg _, hread.stop ▸ Int.natCast_nonneg _⟩
  have hmade := TickRange.edited_edit i.range (b.raisedTo 0) e
  have heffect : i.range.Edited (b.raisedTo 0) e (i.edit b e).range := by
    -- Only crossed edges can send an end below zero, where storing it brings it back up.
    by_cases hb : (b.raisedTo 0).IsOpen
    · rw [range_edit_of_isOpen hnonneg hb]
      exact hmade
    · exact hmade.of_crossed hnonneg hb (tickAt_range_withRange i _)
  have hordered := Int64.le_iff_toInt_le.mp heffect.ordered
  rw [hwritten.start, hwritten.stop] at hordered
  exact {
    ordered := UInt64.le_iff_toNat_le.mpr (by omega)
    read := hread
    written := hwritten
    effect := heffect
    stored := fun hb => range_edit_of_isOpen hnonneg hb e }

end Interval

/-! ### Runs -/

/-- An edit, with the bounds that it is made within. -/
structure Step where
  bounds : Bounds
  edit : Edit

def TickRange.run (r : TickRange) (steps : List Step) : TickRange :=
  steps.foldl (fun r step => r.edit step.bounds step.edit) r

theorem TickRange.run_concat (r : TickRange) (done : List Step) (next : Step) :
    r.run (done ++ [next]) = (r.run done).edit next.bounds next.edit :=
  List.foldl_append

namespace Interval

def run (i : Interval) (steps : List Step) : Interval :=
  steps.foldl (fun i step => i.edit step.bounds step.edit) i

theorem run_concat (i : Interval) (done : List Step) (next : Step) :
    i.run (done ++ [next]) = (i.run done).edit next.bounds next.edit :=
  List.foldl_append

/-- What edits can make of an interval: nothing but its ticks has changed. -/
structure Reaches (i after : Interval) : Prop where
  fits : after.Fits
  others : after = { i with start := after.start, stop := after.stop }

theorem reaches_edit {i now : Interval} (h : i.Reaches now) (b : Bounds) (e : Edit) :
    i.Reaches (now.edit b e) where
  fits := fits_withRange now _
  others := by
    rw [h.others]
    rfl

theorem reaches_run {i : Interval} (h : i.Fits) (steps : List Step) : i.Reaches (i.run steps) := by
  suffices hrun : ∀ now, i.Reaches now → i.Reaches (now.run steps) from hrun i ⟨h, rfl⟩
  induction steps with
  | nil => exact fun _ hnow => hnow
  | cons step rest ih => exact fun now hnow => ih _ (reaches_edit hnow step.bounds step.edit)

end Interval

/-- **However often a range or an interval is edited, each edit keeps within its bounds**, and
what it moves or drags comes to stand as near as it can to where it was to be. -/
theorem timeline_stays_within_bounds :
    (∀ (r : TickRange) (done : List Step) (next : Step),
      (r.run done).Edited next.bounds next.edit (r.run (done ++ [next]))) ∧
    ∀ i : Interval, i.Fits → ∀ (done : List Step) (next : Step),
      i.Reaches (i.run (done ++ [next])) ∧
        (i.run done).Edited next.bounds next.edit (i.run (done ++ [next])) := by
  constructor
  · intro r done next
    rw [TickRange.run_concat]
    exact TickRange.edited_edit _ _ _
  · intro i hi done next
    refine ⟨Interval.reaches_run hi _, ?_⟩
    rw [Interval.run_concat]
    exact Interval.edited_edit (Interval.reaches_run hi done).fits _ _

/-- An interval the wrong way round is moved down to zero, however far the bounds go below it, and
its end is dragged back within others. -/
theorem timeline_of_inverted_interval :
    ∃ (i : Interval) (first next : Step), i.Fits ∧ i.stop < i.start ∧
      i.run [first] = { i with start := 0, stop := 6 } ∧
      i.run [first, next] = { i with start := 0, stop := 5 } ∧
      (i.run [first]).Edited next.bounds next.edit (i.run [first, next]) := by
  let i : Interval := { id := "a", start := 9, stop := 3, predicate := { name := "p" } }
  let first : Step := ⟨{ minTick := -20, maxTick := some 20 }, .move (-15)⟩
  let next : Step := ⟨{ maxTick := some 5 }, .resize .stop 100⟩
  have hfits : i.Fits := ⟨by decide, by decide⟩
  exact ⟨i, first, next, hfits, by decide, by decide, by decide,
    (timeline_stays_within_bounds.2 i hfits [first] next).2⟩

end EventPattern
