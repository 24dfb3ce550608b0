import EventPattern.Catalog.Basic
import EventPattern.Resolution
import EventPattern.Text.Blank
import EventPattern.Timeline

/-! Suggesting parameters from a drawing.

Two ranges and an operator between them suggest the thresholds that the drawing satisfies
exactly. Each family of operators measures δ and ε as differences of endpoints (`Margin`),
never less than zero; ρ is always suggested as zero, ζ and η never. -/
namespace EventPattern

/-! ### Families -/

/-- The base operators that have a geometric reading. -/
inductive Family where
  | before
  | after
  | leftOverlap
  | rightOverlap
  | during
  | reverseDuring
  | startPreceding
  | endFollowing
  | equals
deriving DecidableEq

namespace Family

def all : List Family :=
  [before, after, leftOverlap, rightOverlap, during, reverseDuring, startPreceding, endFollowing,
    equals]

def code : Family → String
  | before => "Bef"
  | after => "Aft"
  | leftOverlap => "LOJ"
  | rightOverlap => "ROJ"
  | during => "DJ"
  | reverseDuring => "RDJ"
  | startPreceding => "SP"
  | endFollowing => "EF"
  | equals => "Eq"

/-- The lower-case short and long names. -/
def names : Family → List String
  | before => ["bef", "before"]
  | after => ["aft", "after"]
  | leftOverlap => ["loj", "leftoverlapjoin"]
  | rightOverlap => ["roj", "rightoverlapjoin"]
  | during => ["dj", "duringjoin"]
  | reverseDuring => ["rdj", "reverseduringjoin"]
  | startPreceding => ["sp", "startpreceding"]
  | endFollowing => ["ef", "endfollowing"]
  | equals => ["eq", "equals"]

/-- Blanks around a name and the case of its letters do not matter. Only ASCII letters need
folding: the names hold no letter that another character folds to. -/
def ofName? (name : String) : Option Family :=
  let folded := String.ofList ((trimBlanks name).toList.map Char.toLower)
  all.find? fun family => family.names.contains folded

/-- By name, or by the base operator that a catalog knows the reference for. -/
def lookup? (reference : String) (catalog : Catalog) : Option Family :=
  (ofName? reference).or <|
    (catalog.lookup? (trimBlanks reference)).bind fun op =>
      (catalog.base? op).bind fun base => ofName? base.id

end Family

/-! ### Margins -/

inductive Side where
  | left
  | right
deriving DecidableEq

structure Endpoint where
  side : Side
  edge : Edge
deriving DecidableEq

namespace Endpoint

def text (e : Endpoint) : String :=
  (match e.side with
    | .left => "left"
    | .right => "right") ++
  (match e.edge with
    | .start => ".start"
    | .stop => ".end")

def tick (e : Endpoint) (left right : TickRange) : Int64 :=
  let range := match e.side with
    | .left => left.ordered
    | .right => right.ordered
  match e.edge with
  | .start => range.start
  | .stop => range.stop

end Endpoint

/-- The way from one endpoint to a later one. -/
structure Margin where
  later : Endpoint
  earlier : Endpoint
deriving DecidableEq

namespace Margin

/-- The length of the way, none when the endpoints are the other way round. -/
def length (m : Margin) (left right : TickRange) : Nat :=
  let difference := (m.later.tick left right).toInt - (m.earlier.tick left right).toInt
  min difference.toNat (2 ^ 63 - 1)

def text (m : Margin) (left right : TickRange) : String :=
  m.later.text ++ " - " ++ m.earlier.text ++ " = " ++ Nat.repr (m.length left right)

def leftStart : Endpoint := ⟨.left, .start⟩
def leftStop : Endpoint := ⟨.left, .stop⟩
def rightStart : Endpoint := ⟨.right, .start⟩
def rightStop : Endpoint := ⟨.right, .stop⟩

/-- What a family measures as δ. -/
def delta? : Family → Option Margin
  | .before => some ⟨rightStart, leftStop⟩
  | .after => some ⟨leftStart, rightStop⟩
  | .leftOverlap | .reverseDuring | .startPreceding => some ⟨rightStart, leftStart⟩
  | .rightOverlap | .during => some ⟨leftStart, rightStart⟩
  | .endFollowing | .equals => none

/-- What a family measures as ε. -/
def epsilon? : Family → Option Margin
  | .leftOverlap | .during => some ⟨rightStop, leftStop⟩
  | .rightOverlap | .reverseDuring | .endFollowing => some ⟨leftStop, rightStop⟩
  | .before | .after | .startPreceding | .equals => none

end Margin

/-! ### Suggestions -/

structure Drawing where
  left : TickRange
  right : TickRange
  operator : String

structure Suggestion where
  params : TypedParams
  trail : List Explanation

namespace Suggestion

def rule : Family → String
  | .before => "DERIVE_BEF_DELTA_FROM_GAP"
  | .after => "DERIVE_AFT_DELTA_FROM_GAP"
  | .leftOverlap => "DERIVE_LOJ_FROM_ENDPOINT_DIFFS"
  | .rightOverlap => "DERIVE_ROJ_FROM_ENDPOINT_DIFFS"
  | .during => "DERIVE_DJ_FROM_CONTAINMENT_MARGINS"
  | .reverseDuring => "DERIVE_RDJ_FROM_CONTAINMENT_MARGINS"
  | .startPreceding => "DERIVE_SP_DELTA_FROM_START_DIFF"
  | .endFollowing => "DERIVE_EF_EPSILON_FROM_END_DIFF"
  | .equals => "DERIVE_EQ_ZERO_THRESHOLDS"

/-- What was measured, or that nothing had to be. -/
def measured (family : Family) (left right : TickRange) : String :=
  if family = .equals then "δ = 0 and ε = 0 (exact alignment)"
  else ", ".intercalate
    (((Margin.delta? family).map fun m => "δ = " ++ m.text left right).toList ++
      ((Margin.epsilon? family).map fun m => "ε = " ++ m.text left right).toList)

def text (family : Family) (left right : TickRange) : String :=
  family.code ++ ": " ++ measured family left right ++ ", clamped to >= 0"

/-- A whole number of ticks as a threshold. -/
def threshold? (ticks : Nat) : Option Threshold := Threshold.ofNumber? (.ofInt ticks)

/-- A family that measures nothing aligns exactly. -/
def length? (family : Family) (margin : Option Margin) (left right : TickRange) : Option Nat :=
  if family = .equals then some 0 else margin.map (·.length left right)

def rhoExplanation : Explanation :=
  { rule := "DERIVE_RHO_DEFAULT_ZERO"
    text := "ρ is not derived from geometry; suggested value is 0" }

def ofDrawing (d : Drawing) (catalog : Catalog) : Suggestion :=
  let details : Json.Fields := [("operatorId", .string d.operator)]
  match Family.lookup? d.operator catalog with
  | none =>
    { params := { rho := some Binary64.zero }
      trail := [rhoExplanation,
        { rule := "DERIVE_UNKNOWN_NO_THRESHOLDS", details
          text := "Unknown operator '" ++ d.operator ++ "': no δ/ε derivation applied" }] }
  | some family =>
    { params :=
        { rho := some Binary64.zero
          delta := (length? family (Margin.delta? family) d.left d.right).bind threshold?
          epsilon := (length? family (Margin.epsilon? family) d.left d.right).bind threshold? }
      trail := [rhoExplanation,
        { rule := rule family, text := text family d.left d.right, details }] }

end Suggestion
end EventPattern
