/-! The arguments of the command line.

Options and the document may stand in any order; after `--` every argument is the
document. An option takes its value from the same argument or from the next one, which then
must not look like an option, and may be given once only. -/
namespace EventPattern.CommandLine

inductive Emit where
  | iseql
  | resolved
  | explain
  | diagnostics
  | buildInfo
  | catalog
deriving DecidableEq

namespace Emit

def all : List Emit := [iseql, resolved, explain, diagnostics, buildInfo, catalog]

def name : Emit → String
  | iseql => "iseql"
  | resolved => "resolved"
  | explain => "explain"
  | diagnostics => "diagnostics"
  | buildInfo => "build-info"
  | catalog => "catalog"

def ofName? (name : String) : Option Emit := all.find? (·.name == name)

end Emit

structure Arguments where
  input : Option String := none
  output : Option String := none
  emit : Option Emit := none
  catalog : Option String := none
  /-- Log lines are asked for. -/
  verbose : Bool := false
deriving DecidableEq

/-- What is to be done. -/
inductive Command where
  | run (arguments : Arguments)
  | help
  | version
  | misuse
deriving DecidableEq

/-! ### Single arguments -/

inductive ValueOption where
  | output
  | emit
  | catalog
deriving DecidableEq

/-- Takes in the value of an option, unless it has one already or cannot have this one. -/
def Arguments.set? (a : Arguments) (option : ValueOption) (value : String) : Option Arguments :=
  if value = "" then none
  else match option with
    | .output => if a.output.isSome then none else some { a with output := some value }
    | .catalog => if a.catalog.isSome then none else some { a with catalog := some value }
    | .emit =>
      if a.emit.isSome then none
      else (Emit.ofName? value).map fun emit => { a with emit := some emit }

def Arguments.setInput? (a : Arguments) (value : String) : Option Arguments :=
  if value = "" ∨ a.input.isSome then none else some { a with input := some value }

def Arguments.setVerbose? (a : Arguments) : Option Arguments :=
  if a.verbose then none else some { a with verbose := true }

/-- What an argument says by itself. -/
inductive Word where
  | input (value : String)
  | optionsEnd
  | verbose
  | help
  | version
  /-- An option with its value, or one whose value is the next argument. -/
  | value (option : ValueOption) (given : Option String)
  | unknown
deriving DecidableEq

def longWord (name : List Char) (given : Option String) : Word :=
  match String.ofList name, given with
  | "output", given => .value .output given
  | "emit", given => .value .emit given
  | "catalog", given => .value .catalog given
  | "verbose", none => .verbose
  | "help", none => .help
  | "version", none => .version
  | _, _ => .unknown

def attached : List Char → Option String
  | [] => none
  | '=' :: value => some (String.ofList value)
  | value => some (String.ofList value)

def Word.of (argument : String) : Word :=
  match argument.toList with
  | ['-', '-'] => .optionsEnd
  | '-' :: '-' :: rest =>
    let value := rest.dropWhile (· ≠ '=')
    longWord (rest.takeWhile (· ≠ '='))
      (if value.isEmpty then none else some (String.ofList (value.drop 1)))
  | '-' :: 'o' :: rest => .value .output (attached rest)
  | '-' :: 'h' :: _ => .help
  | '-' :: 'V' :: _ => .version
  | ['-'] => .input argument
  | '-' :: _ => .unknown
  | _ => .input argument

/-! ### All arguments -/

def inputsOnly (a : Arguments) : List String → Command
  | [] => .run a
  | value :: rest =>
    match a.setInput? value with
    | some a => inputsOnly a rest
    | none => .misuse

/-- The first argument that decides what is to be done wins. -/
def parseFrom (a : Arguments) : List String → Command
  | [] => .run a
  | argument :: rest =>
    match Word.of argument with
    | .help => .help
    | .version => .version
    | .unknown => .misuse
    | .optionsEnd => inputsOnly a rest
    | .verbose =>
      match a.setVerbose? with
      | some a => parseFrom a rest
      | none => .misuse
    | .input value =>
      match a.setInput? value with
      | some a => parseFrom a rest
      | none => .misuse
    | .value option (some value) =>
      match a.set? option value with
      | some a => parseFrom a rest
      | none => .misuse
    | .value option none =>
      match rest with
      | [] => .misuse
      | next :: rest =>
        match Word.of next with
        | .input value =>
          match a.set? option value with
          | some a => parseFrom a rest
          | none => .misuse
        | _ => .misuse

def Command.parse (arguments : List String) : Command := parseFrom {} arguments

end EventPattern.CommandLine
