import ChunkBuild.Compiler.Run
import ChunkBuild.Descriptor
import ChunkBuild.Host.Programs
import ChunkBuild.Json.Reader
import ChunkBuild.Number.Binary64
/-!
# The graph tool

Running the tool that computes the chunk graph. It needs a runtime of some least major version;
where it cannot run, it is reported as unsupported before anything is computed.
-/
namespace ChunkBuild

open ChunkBuild.Text ChunkBuild.Json

structure Calculator where
  command : List String
  /-- The command of its runtime, which starts nothing unless it is a text. -/
  runtime : Value := .str "node"
  /-- The least major version of its runtime, which has to be a number when it is compared. -/
  leastVersion : Value := .int 14
  /-- The directory in which it runs. -/
  directory : Option Path := none

namespace Calculator

def defaultCommand : String := "closure-calculate-chunks"

def ofCommand (line : String) (runtime leastVersion : Value) (directory : Option Path) :
    Except Failure Calculator :=
  match words line with
  | .ok ws => .ok ⟨ws, runtime, leastVersion, directory⟩
  | .error p => .error (.badValue p.message)

def name (c : Calculator) : String := Compiler.calculatorName c.command

/-- The digits of a version at the start of a text: after a `v` and before a dot. -/
def versionHere? : List Char → Option (List Char)
  | 'v' :: r =>
    match r.takeWhile isDigit, r.dropWhile isDigit with
    | d :: ds, '.' :: _ => some (d :: ds)
    | _, _ => none
  | _ => none

def versionDigits? : List Char → Option (List Char)
  | [] => none
  | c :: r =>
    match versionHere? (c :: r) with
    | some ds => some ds
    | none => versionDigits? r

def version? (stdout : String) : Except IntegerProblem (Option Int) :=
  match versionDigits? stdout.toList with
  | none => .ok none
  | some ds => (readInteger (String.ofList ds)).map some

/-- The major version of the runtime, none when it does not run or prints none. -/
def runtimeVersion (c : Calculator) : Job (Option Int) := do
  match ← (Job.startValue c.runtime ["--version"] none).outcome with
  | .ok (.ended 0 stdout _) =>
    match version? stdout with
    | .ok v => pure v
    | .error p => throw (.badValue p.message)
  | .ok _ | .error (.file _) => pure none
  | .error e => throw e

def unsupported (c : Calculator) (reason : String) (context : Fields Value) : Failure :=
  .error ⟨.unsupported c.name reason, context, none⟩

def isInstalled (c : Calculator) : Job Bool :=
  match c.command with
  | [] => pure false
  | word :: _ => Job.isFound word

def isBelow (version : Int) : Value → Except Failure Bool
  | .bool b => .ok (version < if b then 1 else 0)
  | .int n => .ok (version < n)
  | .float x => .ok (x.isAbove version)
  | v => .error (.badType ("an integer cannot be compared with '" ++ v.kindName ++ "'"))

def outdated (c : Calculator) (version : Int) : Failure :=
  if c.leastVersion.isUnprintable then .badValue IntegerProblem.unprintable.message
  else c.unsupported
    ("requires Node.js v" ++ c.leastVersion.display ++ " or later, found v" ++ intText version)
    [("node_version", .int version)]

def ensureSupported (c : Calculator) : Job Unit := do
  if !(← c.isInstalled) then
    throw (c.unsupported ("'" ++ c.command.head?.getD "" ++ "' not found on PATH") [])
  match ← c.runtimeVersion with
  | none => throw (c.unsupported "Node.js runtime not available" [])
  | some v => if ← Job.lift (isBelow v c.leastVersion) then throw (c.outdated v)

def isUnsupported : Failure → Bool
  | .error ⟨.unsupported _ _, _, _⟩ => true
  | _ => false

def isSupported (c : Calculator) : Job Bool := do
  match ← c.ensureSupported.outcome with
  | .ok () => pure true
  | .error e => if isUnsupported e then pure false else throw e

inductive OutputProblem where
  | unreadable (e : ReadError)
  | misshapen (p : RawProblem)
  deriving DecidableEq, Repr

def OutputProblem.message : OutputProblem → String
  | .unreadable e => e.message
  | .misshapen p => p.message

def OutputProblem.cause : OutputProblem → Cause
  | .unreadable (.malformed _ _ _ _) => .malformedJson
  | .unreadable (.integer _) | .unreadable (.tooDeep _) | .misshapen _ => .badValue

def readOutput (s : String) : Except OutputProblem RawOutput :=
  match parse s with
  | .error e => .error (.unreadable e)
  | .ok v => (RawOutput.ofValue v).mapError .misshapen

def failed (c : Calculator) (command : List String) (status : Option Int) (reason : String)
    (cause : Cause) : Failure :=
  .error ⟨.toolFailed c.name command status (some reason), [], some cause⟩

def complaint (stderr : Option String) : String :=
  let s := trim (stderr.getD "")
  if s.isEmpty then "non-zero exit status" else s

def calculate (c : Calculator) (entryPoints : List String) (depsFile baseFile : String) :
    Job RawOutput := do
  let command := Compiler.calculatorCommand c.command entryPoints depsFile baseFile
  match ← (Job.start command (c.directory.map Path.text)).outcome with
  | .error (.file f) | .ok (.refused f) => throw (c.failed command none f.message (.file f.problem))
  | .error e => throw e
  | .ok (.ended exit stdout stderr) =>
    if exit ≠ 0 then throw (c.failed command (some exit) (complaint stderr) .exitStatus)
    match readOutput stdout with
    | .error (.unreadable (.tooDeep kind)) => throw (.tooDeep kind.message)
    | .error p => throw (c.failed command none ("unexpected output: " ++ p.message) p.cause)
    | .ok raw =>
      Job.logged .info
        (c.name ++ " computed " ++ natText raw.chunk.length ++ " chunks over "
          ++ natText raw.js.length ++ " files")
      pure raw

end Calculator

end ChunkBuild
