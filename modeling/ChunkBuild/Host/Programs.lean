import ChunkBuild.Host.Files
import ChunkBuild.Json.Value
/-!
# Programs and variables

Looking programs up and running them, and setting the variables of the environment. A run is recorded
before it is known whether the program can be started. Its name, its arguments and its directory have to
be texts that the system can take.
-/
namespace ChunkBuild

open ChunkBuild.Json ChunkBuild.Text

inductive Ending where
  | refused (fault : FileFault)
  | ended (exit : Int) (stdout : String) (stderr : Option String)
  deriving DecidableEq, Repr

/-- The next behaviour of a command, and the behaviours left for later runs. -/
def Toolbox.next (t : Toolbox) (command : String) : Option Behaviour × Toolbox :=
  match t.behaviours.get? command with
  | none | some [] => (none, t)
  | some [b] => (some b, t)
  | some (b :: later) => (some b, { t with behaviours := t.behaviours.put command later })

/-- What keeps the system from starting a program: the first text that it cannot write. -/
def Host.startProblem? (h : Host) (texts : List String) : Option Failure :=
  if h.systemStarts then texts.findSome? pathProblem? else none

namespace Job

def isFound (name : String) : Job Bool := return (← get).tools.found.contains name

def writeAll : List (String × Bytes) → Job Unit
  | [] => pure ()
  | (p, content) :: r => do
    let path := (← get).current.child p
    ensureDirectories path.parent
    writeBytes path content
    writeAll r

/-- Starts a command with its arguments. A number or a truth value is the name of no program, and a
list or an object cannot be looked up at all. -/
def startValue (command : Value) (arguments : List String) (directory : Option String) :
    Job Ending := do
  modify fun h => { h with runs := h.runs ++ [⟨command :: arguments.map .str, directory⟩] }
  match command with
  | .str s =>
    match (← get).startProblem? (s :: arguments ++ directory.toList) with
    | some e => throw e
    | none => named s
  | .arr _ | .obj _ => throw (.badType ("unhashable type: '" ++ command.kindName ++ "'"))
  | _ => pure (.refused { problem := .notFound, path := "" })
where
  /-- Starts the program of a name. -/
  named (command : String) : Job Ending := do
    let h ← get
    match h.tools.next command with
    | (none, _) => pure (.refused { problem := .notFound, path := command })
    | (some .denied, tools) =>
      set { h with tools := tools }
      pure (.refused { problem := .denied, path := command })
    | (some (.ends writes exit stdout stderr), tools) =>
      set { h with tools := tools }
      writeAll writes
      pure (.ended exit stdout stderr)

def start (ws : List String) (directory : Option String) : Job Ending :=
  startValue (.str (ws.head?.getD "")) (ws.drop 1) directory

end Job

/-! ## Variables

The system keeps the names and values of variables as bytes and takes neither NUL characters nor a name
that is empty or holds an equals sign. -/

def variableProblem? (name value : String) : Option Failure :=
  match systemProblem? name, systemProblem? value with
  | some p, _ | none, some p => some (.unencodable p.message)
  | none, none =>
    if (name ++ value).toList.contains '\x00' then some (.badValue "embedded null byte")
    else if contains "=" name then some (.badValue "illegal environment variable name")
    else if name.isEmpty then some (.system .invalid)
    else none

namespace Job

def setVariable (name : String) : Value → Job Unit
  | .str value =>
    match variableProblem? name value with
    | some e => throw e
    | none => modify fun h =>
      { h with environment := h.environment.put (systemText name) (systemText value) }
  | v => throw (.badType ("str expected, not " ++ v.kindName))

def setVariables (values : Fields Value) : Job Unit := do
  modify fun h => { h with environment := [] }
  values.forM fun (name, value) => setVariable name value

end Job

/-! ## Described hosts

A host written down as a value: its current and its home directory, the texts of its files by path,
and its environment. It finds no programs. -/

def Host.bare (current home : Path) : Host :=
  { files := [], current := current, home := home }

def textFields (fields : Fields Value) : Fields String :=
  fields.filterMap fun (name, v) => v.str?.map fun s => (name, s)

def groupFields (fields : Fields Value) (name : String) : Fields Value :=
  ((lookup fields name).fields?).getD []

def Host.ofFields (fields : Fields Value) : Except Failure Host :=
  let path (name : String) : Path := Path.ofText (((lookup fields name).str?).getD "/")
  let bare := Host.bare (path "current") (path "home")
  let files := (textFields (groupFields fields "files")).map fun (p, s) => (p, encodeUtf8 s)
  let furnish : Job Unit := do
    Job.ensureDirectories bare.current
    Job.ensureDirectories bare.home
    Job.writeAll files
    Job.setVariables (groupFields fields "environment")
  match furnish.run bare with
  | .ok () h => .ok h
  | .error e _ => .error e

end ChunkBuild
