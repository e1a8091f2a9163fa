import ChunkBuild.Host.Files
import ChunkBuild.Json.Printer
import ChunkBuild.Json.Reader
import ChunkBuild.Source.Transform
/-!
# Source maps

Changing the `sources` of a source map, and the fields that change when its file is renamed.
-/
namespace ChunkBuild.Source

open ChunkBuild.Text ChunkBuild.Json

def mapFields : Value → Except Failure (Fields Value)
  | .obj map => .ok map
  | v => .error (.noAttribute ("'" ++ v.kindName ++ "' object has no attribute 'get'"))

/-- A source entry under a change of paths; entries that are no text stay. -/
def changeSource (change : String → Except Failure String) : Value → Except Failure Value
  | .str s => (change s).map .str
  | v => .ok v

def changeSources (change : String → Except Failure String) (map : Fields Value) :
    Except Failure (Fields Value) :=
  match map.get? "sources" with
  | some (.arr items) =>
    (items.mapM (changeSource change)).map fun items => map.put "sources" (.arr items)
  | _ => .ok map

def restoreSources (map : Fields Value) (t : PathTransform) : Except Failure (Fields Value) :=
  changeSources (fun path => t.restore path) map

def changeField (key : String) (map : Fields Value) : Value → Fields Value
  | .null => map
  | v => map.put key v

def changeNames (sourceRoot fileName : Value) (map : Fields Value) : Fields Value :=
  changeField "file" (changeField "sourceRoot" map sourceRoot) fileName

/-- The number of sources of a map: items, characters or keys, none when there is no such number. -/
def sourceCount? (map : Fields Value) : Option Nat :=
  match map.get? "sources" with
  | none => some 0
  | some (.arr items) => some items.length
  | some (.str s) => some (size s.toList)
  | some (.obj fields) => some fields.length
  | some _ => none

/-! ## Maps in files -/

def unreadableMap (p : Path) (reason : String) (cause : Cause) : Failure :=
  .error ⟨.toolFailed "source-map" [] none
    (some ("cannot read " ++ p.text ++ ": " ++ reason)), [], some cause⟩

def readMap (p : Path) : Job Value := do
  match ← (Job.readText p).outcome with
  | .error (.file f) => throw (unreadableMap p f.message (.file f.problem))
  | .error e => throw e
  | .ok s =>
    match parse s with
    | .ok v => pure v
    | .error (.integer problem) => throw (.badValue problem.message)
    | .error (.tooDeep kind) => throw (.tooDeep kind.message)
    | .error e => throw (unreadableMap p e.message .malformedJson)

/-- Changes a map in its file. The number of its sources is asked for at the end, when the file is
already written. -/
def rewriteMapFile (p : Path) (change : String → Except Failure String)
    (sourceRoot fileName : Value) : Job (Fields Value) := do
  let map ← Job.lift (mapFields (← readMap p))
  let map := changeNames sourceRoot fileName (← Job.lift (changeSources change map))
  Job.writeText p (Value.obj map).compact
  match sourceCount? map with
  | some _ => pure map
  | none =>
    throw (.badType ("object of type '" ++ (lookup map "sources").kindName ++ "' has no len()"))

def changeMapFile (p : Path) (t : PathTransform) : (sourceRoot fileName : Value) →
    Job (Fields Value) :=
  rewriteMapFile p fun path => t.restore path

end ChunkBuild.Source
