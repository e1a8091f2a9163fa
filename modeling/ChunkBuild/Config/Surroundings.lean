import ChunkBuild.Config.Arguments
import ChunkBuild.Config.Environment
import ChunkBuild.Config.VariableFile
import ChunkBuild.Host.Files
/-!
# Settings from the surroundings

What is set by variables: those of the environment first, then those in files that the settings
name, then the texts of files in directories that the settings name, each called like a variable.
-/
namespace ChunkBuild.Config

open ChunkBuild.Json ChunkBuild.Text

/-- A path in which a tilde stands for the home directory, with a name behind it for that of another
user, of whom only the superuser is known. -/
def fromHome (home : Except Failure Path) (p : Path) : Except Failure Path :=
  match p.anchor, p.parts with
  | .relative, first :: r =>
    if first = "~" then home.map fun home => ⟨home.anchor, home.parts ++ r⟩
    else if first = "~root" then .ok ⟨.root, "root" :: r⟩
    else if startsWith "~" first then .error .homeless
    else .ok p
  | _, _ => .ok p

def namedPath (home : Except Failure Path) : Value → Except Failure Path
  | .str s => fromHome home (Path.ofText s)
  | _ => .error (.badType "a path has to be a text")

/-- The values that name paths: one, or those of a list; null holds none. -/
def pathValues : Value → Except Failure (List Value)
  | .null => .ok []
  | .str s => .ok [.str s]
  | .arr items => .ok items
  | .obj fields => .ok (fields.map fun f => .str f.1)
  | v => .error (.badType ("'" ++ v.kindName ++ "' object is not iterable"))

/-! ## Files of variables -/

structure FileReading where
  encoding : Value := .null
  /-- How many directories above the current one are searched. -/
  depth : Value := .null

namespace FileReading

def ofFields (fields : Fields Value) : FileReading :=
  ⟨lookup fields "_env_file_encoding", lookup fields "_env_file_depth"⟩

def encoding? (reading : FileReading) : Except Failure Encoding :=
  match reading.encoding with
  | .str name =>
    match halfProblemFrom? false 0 (points name.toList), Encoding.ofName? name with
    | some p, _ => .error (.unencodable p.message)
    | none, some e => .ok e
    | none, none =>
      if name.isEmpty then .ok .utf8
      else if name.toList.contains '\x00' then .error (.badValue "embedded null character")
      else .error (.unknownEncoding name)
  | v => if v.isGiven then .error (.badType "an encoding has to be a text") else .ok .utf8

def levels (reading : FileReading) : Except Failure Nat :=
  match reading.depth with
  | .bool b => .ok (if b then 1 else 0)
  | .int n => .ok n.toNat
  | v => if v.isGiven then .error (.badType "a depth has to be an integer") else .ok 0

/-- The file that a path leads to from the current directory, or else from the nearest one of those
above it that are searched. -/
def find? (reading : FileReading) (p : Path) : Job (Option Path) := do
  if ← Job.isFile p then return some p
  let levels ← Job.lift reading.levels
  if p.isAbsolute then return none
  let above := ((← get).current.ancestors.take levels).map (·.join p)
  return (← above.filterM Job.isFile).head?

def read (reading : FileReading) (p : Path) : Job String := do
  let encoding ← Job.lift reading.encoding?
  match encoding.decode (← Job.readBytes p) with
  | .ok s => pure (String.ofList (unifyLineEnds s.toList))
  | .error (.undecodable message) => throw (.undecodable message)
  | .error (.unmarked bits) => throw (.unmarked bits)

end FileReading

def variablesIn (reading : FileReading) (home : Except Failure Path) :
    List Value → Job (Fields (Option String))
  | [] => pure []
  | v :: r => do
    let here ← match ← reading.find? (← Job.lift (namedPath home v)) with
      | some p => pure (variablesOf (← get).reachableVariables (← reading.read p))
      | none => pure []
    return here ++ (← variablesIn reading home r)

/-! ## Directories of texts -/

/-- The text of the first file in a directory that is called by a name, blanks at its ends taken
away. -/
def secretText? (n : Naming) (name : String) (directory : Path) : Job (Option String) := do
  match (← Job.namesIn directory).find? fun file => n.spelled file = n.spelled name with
  | none => pure none
  | some file =>
    if ← Job.isFile (directory.child file) then
      return some (trim (← Job.readText (directory.child file)))
    else pure none

def lastSecret? (n : Naming) (name : String) : List Path → Job (Option String)
  | [] => pure none
  | directory :: r => do
    match ← lastSecret? n name r with
    | some text => pure (some text)
    | none => secretText? n name directory

def secret? (n : Naming) (start : String) (directories : List Path) (name : String) :
    Job (Option Value) := do
  match ← (lastSecret? n (start ++ name) directories).outcome with
  | .error _ => throw (.unreadableVariable name "SecretsSettingsSource")
  | .ok none => pure none
  | .ok (some text) =>
    match groups.find? (·.1 = name) with
    | none => pure (some (.str text))
    | some (_, group) =>
      match ← Job.lift (decoded "SecretsSettingsSource" name text) with
      | .null => pure none
      | .obj fields => pure (some (.obj (respelled n group fields)))
      | v => pure (some v)

/-- The settings that the files in directories give. What is not there is left out, but a directory
has to be one. -/
def ofSecrets (n : Naming) (directories : List Path) : Job (Fields Value) := do
  let present ← directories.filterM fun p => Job.exists? p
  for p in present do
    if !(← Job.isDirectory p) then throw (.unreadableVariable "" "SecretsSettingsSource")
  match n.start.str? with
  | none => pure []
  | some start =>
    settingNames.filterMapM fun name => do
      return (← secret? n start present name).map fun v => (name, v)

structure Surroundings where
  below : Fields Value := []
  above : Fields Value := []

/-- The settings that come from the surroundings, read as the given fields ask for. Everything that
is read from outside is read first. -/
def surrounding (n : Naming) (fields : Fields Value) : Job Surroundings := do
  let h ← get
  let home := h.homeDirectory
  let files ← Job.lift (pathValues (lookup fields "_env_file"))
  let inFiles ← variablesIn (.ofFields fields) home files
  let above ← Job.lift (ofArguments n fields)
  let texts := h.environment.map fun (name, text) => (name, some text)
  let environment ← Job.lift (ofEnvironment "EnvSettingsSource" n texts)
  let written ← Job.lift (ofEnvironment "DotEnvSettingsSource" n inFiles)
  let named ← Job.lift (pathValues (lookup fields "_secrets_dir"))
  let directories ← Job.lift (named.mapM (namedPath home))
  let secrets ← ofSecrets n directories
  return { below := merge (merge secrets written) environment, above := above }

end ChunkBuild.Config
