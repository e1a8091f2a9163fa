import ChunkBuild.Config.Misfit
import ChunkBuild.Json.Printer
import ChunkBuild.Json.Reader
import ChunkBuild.Text.Encoding
import ChunkBuild.Text.Pieces
/-!
# Failures

Everything that can end a step of a build: the program's own errors, which carry a context and
sometimes a cause, and the failures of files, texts and values underneath. Each has one wording,
given by `message`.
-/
namespace ChunkBuild

open ChunkBuild.Json ChunkBuild.Text

inductive FileProblem where
  | notFound
  | denied
  | busy
  | exists
  | notDirectory
  | isDirectory
  | invalid
  | nameTooLong
  | notEmpty
  deriving DecidableEq, Repr

def FileProblem.message : FileProblem → String
  | .notFound => "[Errno 2] No such file or directory"
  | .denied => "[Errno 13] Permission denied"
  | .busy => "[Errno 16] Device or resource busy"
  | .exists => "[Errno 17] File exists"
  | .notDirectory => "[Errno 20] Not a directory"
  | .isDirectory => "[Errno 21] Is a directory"
  | .invalid => "[Errno 22] Invalid argument"
  | .nameTooLong => "[Errno 36] File name too long"
  | .notEmpty => "[Errno 39] Directory not empty"

/-- A file operation that failed, on a path or from one path to another. A path is shown quoted, or
as a path object when `asObject` is set. -/
structure FileFault where
  problem : FileProblem
  path : String
  target : Option String := none
  asObject : Bool := false
  deriving DecidableEq, Repr

def FileFault.message (f : FileFault) : String :=
  f.problem.message ++ ": " ++
    (if f.asObject then "PosixPath(" ++ quoted f.path ++ ")" else quoted f.path) ++
    match f.target with
    | none => ""
    | some t => " -> " ++ quoted t

inductive Cause where
  | malformedJson
  | badValue
  | undecodable
  | exitStatus
  | file (problem : FileProblem)
  deriving DecidableEq, Repr

inductive ErrorKind where
  | general (message : String)
  /-- A field of a model has a value it cannot have. -/
  | validation (field : String) (value : Value) (reason : String)
  /-- The configuration or the declared chunks cannot be used. -/
  | configuration (key : Option String) (value : Value) (reason : Option String)
      (invalid : List Config.InvalidField)
  /-- The resolver's output does not fit the declared chunks. -/
  | inconsistent (reason : String) (chunk nickname : Option String)
  /-- A tool cannot run in this environment. -/
  | unsupported (tool reason : String)
  /-- The resolver's cache is missing or cannot be read. -/
  | cacheUnusable (file reason : String)
  /-- A tool failed or wrote something unexpected. -/
  | toolFailed (tool : String) (command : List String) (status : Option Int)
      (reason : Option String)

structure BuildError where
  kind : ErrorKind
  context : Fields Value := []
  cause : Option Cause := none

def labelled (label : String) (parts : List String) : String :=
  if parts.isEmpty then label else label ++ " (" ++ join ", " parts ++ ")"

/-- The label `name=text` of a text that is given and not empty. -/
def part (name : String) : Option String → List String
  | some s => if s.isEmpty then [] else [name ++ "=" ++ s]
  | none => []

def ErrorKind.message : ErrorKind → String
  | .general message => message
  | .validation field _ reason => "Validation failed for field '" ++ field ++ "': " ++ reason
  | .configuration key _ reason _ =>
    match key.filter (!·.isEmpty), reason.filter (!·.isEmpty) with
    | some k, _ => "Configuration error for '" ++ k ++ "': " ++ reason.getD "None"
    | none, some r => "Configuration error: " ++ r
    | none, none => "Configuration error"
  | .inconsistent reason chunk nickname =>
    labelled "Graph inconsistency" (part "chunk" chunk ++ part "nickname" nickname) ++ ": "
      ++ reason
  | .unsupported tool reason => "Cannot run " ++ tool ++ ": " ++ reason
  | .cacheUnusable file reason => "Resolver cache " ++ file ++ " unusable: " ++ reason
  | .toolFailed tool _ status reason =>
    let label := labelled "Tool error"
      (("tool=" ++ tool) :: status.toList.map fun n => "status=" ++ intText n)
    match reason.filter (!·.isEmpty) with
    | some r => label ++ ": " ++ r
    | none => label

def BuildError.message (e : BuildError) : String :=
  if e.context.isEmpty then e.kind.message
  else
    e.kind.message ++ " (context: " ++
      join ", " (e.context.map fun (k, v) => k ++ "=" ++ v.display) ++ ")"

def BuildError.addContext (e : BuildError) (key : String) (value : Value) : BuildError :=
  { e with context := e.context.put key value }

inductive Failure where
  | error (e : BuildError)
  /-- Settings do not fit their model. -/
  | invalidSettings (model : String) (invalid : List Config.InvalidField)
  /-- What a source of variables says about a field cannot be read. -/
  | unreadableVariable (field source : String)
  | file (fault : FileFault)
  /-- The system refuses something that is no path. -/
  | system (problem : FileProblem)
  | undecodable (message : String)
  | badValue (message : String)
  /-- A number is too large to be converted. -/
  | tooLarge (message : String)
  /-- A text holds halves of characters and cannot be written as bytes. -/
  | unencodable (message : String)
  /-- A value in a text lies too deep in others. -/
  | tooDeep (message : String)
  | badType (message : String)
  | noAttribute (message : String)
  | outOfRange
  /-- An encoding that there is none of. -/
  | unknownEncoding (name : String)
  /-- Bytes that do not say in which order those of a unit of so many bits are. -/
  | unmarked (bits : Nat)
  /-- A home directory that nobody has. -/
  | homeless
  /-- The program is to end with an exit code. -/
  | ended (code : Nat)

def Failure.message : Failure → String
  | .error e => e.message
  | .invalidSettings _ _ => "<details>"
  | .unreadableVariable field source =>
    "error parsing value for field \"" ++ field ++ "\" from source \"" ++ source ++ "\""
  | .file fault => fault.message
  | .system problem => problem.message
  | .undecodable message => message
  | .badValue message => message
  | .tooLarge message => message
  | .unencodable message => message
  | .tooDeep message => message
  | .badType message => message
  | .noAttribute message => message
  | .outOfRange => "index out of range"
  | .unknownEncoding name => "unknown encoding: " ++ name
  | .unmarked bits => (EncodingProblem.unmarked bits).message
  | .homeless => "Could not determine home directory."
  | .ended code => natText code

def Failure.validation (field : String) (value : Value) (reason : String) : Failure :=
  .error ⟨.validation field value reason, [], none⟩

def Failure.configuration (key : Option String) (value : Value) (reason : String) : Failure :=
  .error ⟨.configuration key value (some reason) [], [], none⟩

end ChunkBuild
