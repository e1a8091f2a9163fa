import ChunkBuild.CommandLine.Commands
import ChunkBuild.Host.Programs
import ChunkBuild.Json.Reader
/-!
# The program

Runs its arguments as a command line on the host that is described, as a line of JSON, on standard
input. What was logged goes to the standard error output before the command's own errors.
-/
namespace ChunkBuild

def describedHost (s : String) : Except String Host :=
  match Json.parse (Text.written s) with
  | .error e => .error e.message
  | .ok v => (Host.ofFields (v.fields?.getD [])).mapError Failure.message

end ChunkBuild

open ChunkBuild in
def main (arguments : List String) : IO UInt32 := do
  let line ← (← IO.getStdin).getLine
  match describedHost line with
  | .error message =>
    IO.eprintln (Text.unwritten message)
    pure 2
  | .ok host =>
    let terminal : CommandLine.Terminal :=
      { host := host, providers := { directory := host.current } }
    let (code, after) := CommandLine.run (arguments.map Text.written) terminal
    after.host.log.forM fun (level, message) =>
      IO.eprintln (level.text ++ " " ++ Text.unwritten message)
    IO.eprint (Text.unwritten after.errorOutput)
    IO.print (Text.unwritten after.output)
    match code with
    | .ok n => pure n.toUInt32
    | .error e =>
      IO.eprintln (Text.unwritten e.message)
      pure 1
