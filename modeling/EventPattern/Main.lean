import EventPattern.CommandLine.Session

/-! The program: reads the files that the arguments name, and carries out the reply. -/
namespace EventPattern.CommandLine

private def fileProblem : IO.Error → FileProblem
  | .noFileOrDirectory .. => .notFound
  | error => ⟨toString error⟩

private def readFile (path : String) : IO (Except FileProblem String) := do
  try
    return .ok (← IO.FS.readFile path)
  catch error =>
    return .error (fileProblem error)

/-- The files that a command may read, and the input if it reads that. -/
private def world (a : Arguments) : IO World := do
  let paths := a.catalog.toList ++ (a.input.filter (!isStdin ·)).toList
  let files ← paths.mapM fun path => return (path, ← readFile path)
  let stdin ← if a.input.any isStdin then (← IO.getStdin).readToEnd else pure ""
  return { stdin, read := fun path => (files.lookup path).getD (.error .notFound) }

private def carryOut (reply : Reply) : IO Reply := do
  match reply.file with
  | none => return reply
  | some (path, text) =>
    try
      IO.FS.writeFile path text
      return reply
    catch error =>
      return reply.writeFailed path (fileProblem error)

end EventPattern.CommandLine

open EventPattern.CommandLine in
def main (arguments : List String) : IO UInt32 := do
  let command := Command.parse arguments
  let surroundings ← match command with
    | .run a => world a
    | _ => pure { stdin := "", read := fun _ => .error .notFound }
  let reply ← carryOut (respond surroundings command)
  IO.print reply.stdout
  IO.eprint reply.stderr
  return UInt32.ofNat reply.code
