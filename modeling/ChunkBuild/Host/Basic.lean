import ChunkBuild.Host.FileTree
import ChunkBuild.Json.Value
import ChunkBuild.Path
/-!
# The host of a build

What surrounds a build: the files, the current and the home directory, the environment, the
programs that can be started, and what has been logged and started so far. A job changes the host
and keeps its changes when it fails.
-/
namespace ChunkBuild

open ChunkBuild.Json ChunkBuild.Text

inductive LogLevel where
  | info
  | warning
  | error
  deriving DecidableEq, Repr

def LogLevel.text : LogLevel → String
  | .info => "INFO"
  | .warning => "WARNING"
  | .error => "ERROR"

inductive Behaviour where
  /-- The system refuses to start it. -/
  | denied
  /-- It writes files, prints and ends. -/
  | ends (writes : List (String × Bytes)) (exit : Int) (stdout : String) (stderr : Option String)
  deriving DecidableEq, Repr

/-- The programs of a host: the names that are found, and by command the behaviour of each run; the
last behaviour stays. -/
structure Toolbox where
  found : List String := []
  behaviours : Fields (List Behaviour) := []

/-- A program that was started. Its arguments are texts, but for the first one when something else
is configured as a command. -/
structure Run where
  arguments : List Value
  directory : Option String

structure Host where
  files : FileTree
  current : Path
  home : Path
  environment : Fields String := []
  tools : Toolbox := {}
  log : List (LogLevel × String) := []
  runs : List Run := []
  /-- Whether the system starts the programs, which takes no text that it cannot write. Programs that
  are only played take any. -/
  systemStarts : Bool := false

def homeVariable : String := "HOME"

/-- The home directory: the one of the environment, or else the one that the host has. A tilde at the
start of the former would have to be replaced itself. -/
def Host.homeDirectory (h : Host) : Except Failure Path :=
  match h.environment.get? homeVariable with
  | none => .ok h.home
  | some s =>
    if startsWith "~" s then .error .homeless
    else if s.all (· = '/') then .ok (Path.ofText "/")
    else .ok (Path.ofText s)

def Host.reachableVariables (h : Host) : Fields String :=
  if h.environment.has homeVariable then h.environment
  else h.environment.put homeVariable h.home.text

abbrev Job := EStateM Failure Host

namespace Job

def outcome (t : Job α) : Job (Except Failure α) := fun h =>
  match t h with
  | .ok a h => .ok (.ok a) h
  | .error e h => .ok (.error e) h

def lift : Except Failure α → Job α
  | .ok a => pure a
  | .error e => throw e

def logged (level : LogLevel) (message : String) : Job Unit :=
  modify fun h => { h with log := h.log ++ [(level, message)] }

end Job

end ChunkBuild
