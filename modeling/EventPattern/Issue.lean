import EventPattern.Json.Basic
import EventPattern.Location
import EventPattern.Order

/-! Issues: what is found wrong or doubtful in a document, and where.

Lists of issues are ordered by path, code and message. -/
namespace EventPattern

inductive Severity where
  | error
  | warning
deriving DecidableEq

def Severity.name : Severity → String
  | error => "error"
  | warning => "warning"

structure Issue where
  severity : Severity
  code : String
  path : String
  message : String
deriving DecidableEq

namespace Issue

def error (code path message : String) : Issue := ⟨.error, code, path, message⟩

def warning (code path message : String) : Issue := ⟨.warning, code, path, message⟩

def isError (issue : Issue) : Bool := issue.severity = .error

/-- The issue lies at the path `scope` or beneath it. -/
def isWithin (issue : Issue) (scope : String) : Bool :=
  match scope.toList.isPrefixOf? issue.path.toList with
  | none => false
  | some [] => true
  | some (c :: _) => c = '.' || c = '['

/-- One line; an issue of the whole document has no path. -/
def text (issue : Issue) : String :=
  issue.severity.name ++ "[" ++ issue.code ++ "]" ++
    (if issue.path = "" then "" else " " ++ issue.path) ++ ": " ++ issue.message

def toJson (issue : Issue) : Json :=
  .object [("code", .string issue.code), ("message", .string issue.message),
    ("path", .string issue.path), ("severity", .string issue.severity.name)]

/-! ### Lists of issues -/

def sortKey (issue : Issue) : List String := [issue.path, issue.code, issue.message]

def sort (issues : List Issue) : List Issue := sortOn sortKey issues

/-- Each issue once, where it first stands. -/
def distinct (issues : List Issue) : List Issue := issues.eraseDups

def anyError (issues : List Issue) : Bool := issues.any isError

end Issue
end EventPattern
