import EventPattern.Catalog.Embedded
import EventPattern.Catalog.Reading
import EventPattern.CommandLine.Arguments
import EventPattern.Compilation.BuildInfo
import EventPattern.Compilation.Run

/-! A run of the command line, as a function of the files it reads.

The catalog is loaded first, then the document is read and compiled as far as the emitted
stage needs. Issues go to the error output, and the emitted text to the output or to a
file; nothing but diagnostics is emitted for a rejected document. The exit code tells
accepted (0) from rejected (1) and from failed (2).

With `--verbose`, or if its environment asks for them, a run also logs how long its stages took.
These lines go to the error output in front of the issues and are different every time. A reply
leaves them out, so its `stderr` is the error output of a run that does not log. -/
namespace EventPattern.CommandLine

/-! ### What surrounds a run -/

/-- Why a file cannot be read or written, in the words of the system. -/
structure FileProblem where
  text : String

namespace FileProblem

def notFound : FileProblem := ⟨"No such file or directory (os error 2)"⟩

def isDirectory : FileProblem := ⟨"Is a directory (os error 21)"⟩

end FileProblem

structure World where
  stdin : String
  read : String → Except FileProblem String

structure Reply where
  code : Nat := 0
  stdout : String := ""
  stderr : String := ""
  /-- A file to be written, with its text. -/
  file : Option (String × String) := none

namespace Reply

def failure (message : String) : Reply :=
  { code := 2, stderr := "iseqlc: error: " ++ message ++ "\n" }

/-- The reply when its file cannot be written. -/
def writeFailed (reply : Reply) (path : String) (problem : FileProblem) : Reply :=
  let failed := failure ("cannot write " ++ path ++ ": " ++ problem.text)
  { failed with stderr := reply.stderr ++ failed.stderr }

/-- Text for the output file or, without one, for the output. -/
def emitting (reply : Reply) (output : Option String) (text : String) : Reply :=
  match output with
  | some path => { reply with file := some (path, text) }
  | none => { reply with stdout := text }

end Reply

/-! ### The emitted texts -/

/-- The last stage that an emitted text needs, none when nothing is compiled. -/
def Emit.goal? : Emit → Option Stage
  | .iseql => some .render
  | .resolved | .explain => some .resolve
  | .diagnostics => some .review
  | .buildInfo | .catalog => none

def prettyText (json : Json) : String := json.pretty ++ "\n"

def diagnosticsJson (c : Compilation) : Json :=
  .object [("errors", .array (c.errors.map Issue.toJson)),
    ("outcome", .string (outcomeName (!c.hasError))),
    ("warnings", .array (c.warnings.map Issue.toJson))]

/-- What is emitted for a compilation. -/
def emitted? (emit : Emit) (c : Compilation) : Option String :=
  match emit with
  | .diagnostics => some (prettyText (diagnosticsJson c))
  | .iseql => if c.hasError then none else c.iseql
  | .resolved => if c.hasError then none else c.resolved.map fun m => prettyText m.toDocument
  | .explain =>
    if c.hasError then none
    else some (prettyText (.array (c.trail.map Explanation.toJson)))
  | .buildInfo | .catalog => none

/-! ### The run -/

/-- A file that does not open is named once more by the catalog's own message. -/
def loadCatalog (world : World) : Option String → Except String Catalog
  | none => .ok .embedded
  | some path =>
    let context := "cannot load operator catalog " ++ path ++ ": "
    match world.read path with
    | .error problem =>
      .error (context ++ path ++ ": " ++ problem.text ++ ": " ++ problem.text)
    | .ok text => (Catalog.ofText text).mapError fun fault => context ++ fault.message

/-- The standard input goes by `-`; slashes behind a name do not change what it names. -/
def isStdin (path : String) : Bool :=
  path.startsWith "-" && (path.splitOn "/").filter (fun part => part ≠ "" && part ≠ ".") = ["-"]

def readInput (world : World) (path : String) : Except String Json := do
  let text ←
    if isStdin path then .ok world.stdin
    else (world.read path).mapError fun problem =>
      "cannot read " ++ path ++ ": " ++ problem.text
  match Json.ofText? text with
  | some input => .ok input
  | none => .error (path ++ " is not valid JSON")

/-- Compiles as far as the goal, and reports. -/
def compileReply (emit : Emit) (goal : Stage) (output : Option String) (catalog : Catalog)
    (input : Json) : Reply :=
  let c := (Compilation.run { input, catalog } goal).compilation
  let reply : Reply :=
    { code := if c.hasError then 1 else 0
      stderr := String.join ((c.errors ++ c.warnings).map fun issue => issue.text ++ "\n") }
  match emitted? emit c with
  | some text => reply.emitting output text
  | none => reply

def replyFor (world : World) (a : Arguments) : Except String Reply := do
  let catalog ← loadCatalog world a.catalog
  let emit := a.emit.getD .iseql
  if emit = .catalog then return Reply.emitting {} a.output catalog.listing
  match a.input with
  | none => .error "no input document given (pass a path, or `-` for stdin)"
  | some path =>
    let input ← readInput world path
    match emit.goal? with
    | none => return Reply.emitting {} a.output (BuildInfo.text input catalog)
    | some goal => return compileReply emit goal a.output catalog input

def versionText : String := "iseqlc " ++ BuildInfo.compilerVersion ++ "\n"

def usageLine : String := "Usage: iseqlc [OPTIONS] [INPUT]\n"

def helpText : String :=
  "ISEQL event-model compiler — validates temporal relation models and emits ISEQL patterns\n\n" ++
  usageLine ++
  "\nArguments:\n" ++
  "  [INPUT]  Input event-model JSON document (`-` reads stdin)\n" ++
  "\nOptions:\n" ++
  "  -o, --output <OUTPUT>    Output file path (default: stdout)\n" ++
  "      --emit <EMIT>        Output stage [default: iseql] [possible values: " ++
  ", ".intercalate (Emit.all.map Emit.name) ++ "]\n" ++
  "      --catalog <CATALOG>  Operator catalog JSON to use instead of the embedded one\n" ++
  "      --verbose            Log pass timing\n" ++
  "  -h, --help               Print help\n" ++
  "  -V, --version            Print version\n"

/-- The reply to a command. -/
def respond (world : World) : Command → Reply
  | .help => { stdout := helpText }
  | .version => { stdout := versionText }
  | .misuse => { code := 2, stderr := "error: invalid arguments\n\n" ++ usageLine }
  | .run a =>
    match replyFor world a with
    | .ok reply => reply
    | .error message => .failure message

end EventPattern.CommandLine
