import TxRelay.Command.Execute
import TxRelay.Identifier

/-!
# The program

The outer layer: it looks up what the command works with, carries the command out and writes what it
leaves. It opens no sockets, so that no agent can be reached from here.
-/

namespace TxRelay.Program

open Command

/-- What a path leads to. -/
def lookUp (path : String) : IO Files.Found := do
  try
    return .bytes (← IO.FS.readBinFile path).data.toList
  catch
    | .noFileOrDirectory .. => return .missing
    | .permissionDenied .. => return .forbidden
    | .inappropriateType _ 21 _ => return .directory
    | _ => return .beyondFile

/-- Reads a stream to its end. -/
partial def readAll (stream : IO.FS.Stream) (before : ByteArray) : IO ByteArray := do
  let chunk ← stream.read 65536
  if chunk.isEmpty then return before else readAll stream (before ++ chunk)

/-- The input of an action. -/
def inputOf : Action → String
  | .run options => options.input
  | .dryRun input => input

/-- The paths that an action reads. -/
def pathsOf : Action → List String
  | .run options => options.config.toList ++ [options.input]
  | .dryRun input => [input]

/-- What is found at the first of some paths that is the one asked for. -/
def search (found : List (String × Files.Found)) (path : String) : Files.Found :=
  ((found.find? (·.1 = path)).map (·.2)).getD .missing

/-- The number that bytes write to the base 256. -/
def numberOf (bytes : ByteArray) : Nat :=
  bytes.data.foldl (fun n b => 256 * n + b.toNat) 0

/-- The world of an action. -/
def world (agents : Option String) (action : Action) : IO World := do
  let input ←
    if inputOf action = standardInput then readAll (← IO.getStdin) .empty else pure .empty
  let found ← (pathsOf action).mapM fun path => return (path, ← lookUp path)
  let time ← IO.monoMsNow
  let random := numberOf (← IO.getRandomBytes 9)
  return {
    files := search found
    input := input.data.toList
    agents
    probe := fun _ => .error "Network is unreachable (os error 101)"
    exchange := fun _ _ _ => .lost "no connection"
    ids := fun index => Identifier.make time (random + index)
    interrupted := false }

/-- Writes what a command leaves. -/
def write (report : Report) : IO Unit := do
  let out ← IO.getStdout
  let err ← IO.getStderr
  for line in report.output do out.putStrLn line
  for line in report.logLines do err.putStrLn line
  match report.failure with
  | some failure => err.putStrLn failure.text
  | none => pure ()

end TxRelay.Program

open TxRelay TxRelay.Command in
/-- Carries out the command that the arguments name. -/
def main (args : List String) : IO UInt32 := do
  let agents ← IO.getEnv "CHAINFANOUT_AGENTS"
  match parse agents args with
  | .error refusal => return refusal.code.toUInt32
  | .ok invocation =>
    let report := perform (← Program.world agents invocation.action) invocation
    Program.write report
    return report.code.toUInt32
