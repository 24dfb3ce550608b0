import EventPattern.Catalog.Basic
import EventPattern.Iseql.Atom

/-! ISEQL text of a resolved model.

The text is a list of lines: a header of two comments, the intervals, the relations. A
relation shows only the parameters that differ from the defaults of its operator, and of
its constraints those that restrict the match. -/
namespace EventPattern.Iseql

/-! ### Names and selections -/

def placeholderName : String := "EVENT_MODEL"

/-- The name of a model, else its id, else a placeholder. -/
def headerName (m : ResolvedModel) : String :=
  match m.name.filter (· ≠ "") with
  | some name => name
  | none => if m.id ≠ "" then m.id else placeholderName

/-- The relations that the model selects, in that order, or all of them by id. -/
def selectedRelations (m : ResolvedModel) : List (Relation TypedParams) :=
  let wanted := (m.selection.map (·.ids)).getD []
  if wanted.isEmpty then sortOn Relation.id m.relations
  else wanted.eraseDups.filterMap m.relation?

/-! ### Parameters -/

/-- The defaults that a relation's parameters are compared with. -/
def defaultsFor (c : Catalog) (operator : String) : TypedParams :=
  match (c.lookup? operator).bind c.base? with
  | some base => c.defaultsOf base
  | none => c.defaults

/-- One parameter, unless it is the default. -/
def paramText? (params defaults : TypedParams) (key : ParamKey) : Option String :=
  (params.get key).bind fun value =>
    if defaults.get key = some value then none
    else some (key.greek ++ ":" ++ key.kind.text value)

def paramTexts (params defaults : TypedParams) : List String :=
  ParamKey.all.filterMap (paramText? params defaults)

/-! ### Constraints -/

/-- The rank and the label of the kinds that are shown. -/
def extraLabel? : ConstraintKind → Option (Nat × String)
  | .cardinality => some (0, "cardinality")
  | .overlapPercentage => some (1, "overlap")
  | .robustness => some (2, "robustness")
  | _ => none

structure Extra where
  rank : Nat
  label : String
  constraint : Constraint

def extra? (c : Constraint) : Option Extra :=
  (extraLabel? c.kind).map fun (rank, label) => { rank, label, constraint := c }

/-- By kind, then by id. -/
def Extra.before (a b : Extra) : Bool :=
  if a.rank = b.rank then a.constraint.id ≤ b.constraint.id else a.rank < b.rank

/-- The value of a constraint, or its whole payload. -/
def Extra.text (e : Extra) : String :=
  e.label ++ "=" ++ ((e.constraint.field? "value").getD (.object e.constraint.payload)).compact

def extras (m : ResolvedModel) (r : Relation TypedParams) : List Extra :=
  sortBy Extra.before
    (r.constraintIds.eraseDups.filterMap fun id => (m.constraint? id).bind extra?)

/-! ### Lines -/

/-- Some texts between brackets after a blank; none leave nothing. -/
def group (left right : String) (texts : List String) : String :=
  if texts.isEmpty then "" else " " ++ left ++ ", ".intercalate texts ++ right

def intervalLine (i : Interval) : String := "@" ++ i.id ++ ": " ++ call i.predicate

def relationLine (m : ResolvedModel) (c : Catalog) (r : Relation TypedParams) : String :=
  "@" ++ r.left ++ " " ++ r.operator ++
    group "(" ")" (paramTexts r.params (defaultsFor c r.operator)) ++
    " @" ++ r.right ++ group "[" "]" ((extras m r).map Extra.text)

def lines (m : ResolvedModel) (c : Catalog) : List String :=
  let relations := selectedRelations m
  ["# " ++ headerName m,
    "# intervals: " ++ Nat.repr m.intervals.length ++ ", relations: " ++
      Nat.repr relations.length,
    "", "INTERVALS"] ++
  (sortOn Interval.id m.intervals).map intervalLine ++
  ["", "RELATIONS"] ++ relations.map (relationLine m c)

/-- Every line ends with a line break. -/
def text (m : ResolvedModel) (c : Catalog) : String :=
  String.join ((lines m c).map (· ++ "\n"))

end EventPattern.Iseql
