import ChunkBuild.Compiler.Options
import ChunkBuild.Config.Settings
import ChunkBuild.Config.Surroundings
import ChunkBuild.Yaml.Content
/-!
# Layers of settings

Settings come from the environment, the user's file, the project's file and the command line, each
layer merged over the ones before. The user's file is optional in every respect: one that cannot be
used is reported and left out. How YAML is read is a parameter.
-/
namespace ChunkBuild.Config

open ChunkBuild.Json ChunkBuild.Text

def projectFileNames : List String := [".chunklink.json", ".chunklink.yaml", ".chunklink.yml"]

def userFile (home : Path) : Path := (home.child ".chunklink").child "config.json"

/-- A layer of settings. Keys that are no texts can be written in YAML; such a layer is read but
cannot be used, and with integers of too many digits for keys it cannot be shown. -/
structure Layer where
  items : Fields Item := []
  hasTextKeys : Bool := true
  hasLongKey : Bool := false

namespace Layer

def ofFields (fields : Fields Value) : Layer := { items := Item.ofFields fields }

def fields (l : Layer) : Fields Value := Item.fieldValues l.items

def mergedOver (above below : Layer) : Layer :=
  { items := mergeOver below.items above.items
    hasTextKeys := below.hasTextKeys && above.hasTextKeys
    hasLongKey := below.hasLongKey || above.hasLongKey }

def shown (l : Layer) : Except Failure (Fields Value) :=
  if l.hasLongKey then .error (.badValue IntegerProblem.unprintable.message) else .ok l.fields

end Layer

/-- What a text in YAML holds, and what is to be known of its keys. -/
structure Document where
  item : Item
  hasTextKeys : Bool := true
  hasLongKey : Bool := false

/-- A reader of YAML. A document that holds itself is none that it can give. -/
abbrev YamlReader := String → Except Yaml.ReadError Document

def readYaml : YamlReader := fun s =>
  (Yaml.Content.parse s).map fun c => ⟨c.item, c.hasTextKeys, c.hasLongKey⟩

def isYaml (p : Path) : Bool := [".yaml", ".yml"].contains p.suffix

def unusableFile (p : Path) (reason : String) : Failure :=
  .configuration (some p.text) .null reason

def unreadableFile (p : Path) (reason : String) : Failure :=
  unusableFile p ("Cannot parse config file: " ++ reason)

/-- The layer of what a file holds: nothing at all is an empty layer. -/
def layerOf (p : Path) : Item → Except Failure Layer
  | .null => .ok {}
  | .mapping _ fields => .ok { items := fields }
  | _ => .error (unusableFile p "Config file must contain a mapping")

def layerOfJson (p : Path) (s : String) : Except Failure Layer :=
  match parse s with
  | .ok v => layerOf p (.ofValue v)
  | .error (.integer e) => .error (.badValue e.message)
  | .error (.tooDeep kind) => .error (.tooDeep kind.message)
  | .error e => .error (unreadableFile p e.message)

def layerOfYaml (yaml : YamlReader) (p : Path) (s : String) : Except Failure Layer :=
  match yaml s with
  | .ok d => (layerOf p d.item).map fun l =>
      { l with hasTextKeys := d.hasTextKeys, hasLongKey := d.hasLongKey }
  | .error .malformed => .error (unreadableFile p "<details>")
  | .error (.noSuchValue message) => .error (.badValue message)
  | .error (.tooLarge message) => .error (.tooLarge message)
  | .error .tooDeep => .error (.tooDeep Yaml.tooDeepMessage)

def readYamlText (p : Path) : Job String := do
  match decodeUtf8Stream (← Job.readBytes p) with
  | .ok s => pure (String.ofList (unifyLineEnds s.toList))
  | .error e => throw (.undecodable e.message)

def loadFileBy (yaml : YamlReader) (p : Path) : Job Layer := do
  if !(← Job.isFile p) then throw (unusableFile p "Config file not found")
  let read := if isYaml p then readYamlText p else Job.readText p
  match ← read.outcome with
  | .ok s => Job.lift (if isYaml p then layerOfYaml yaml p s else layerOfJson p s)
  | .error (.file f) => throw (unreadableFile p f.message)
  | .error e => throw e

def loadFile (p : Path) : Job Layer := loadFileBy readYaml p

def findFile? (directory : Path) : List String → Job (Option Path)
  | [] => pure none
  | name :: r => do
    let p := directory.child name
    if ← Job.isFile p then pure (some p) else findFile? directory r

/-- The layer of the user's file, empty when it cannot be used. -/
def loadUserFile : Job Layer := do
  let p := userFile (← Job.lift (← get).homeDirectory)
  if !(← Job.exists? p) then pure {}
  else
    match ← (loadFile p).outcome with
    | .ok l => pure l
    | .error (.error e) =>
      Job.logged .warning ("Ignoring user config: " ++ e.message)
      pure {}
    | .error e => throw e

def loadProjectFile (yaml : YamlReader) (directory : Path) : (file : Option Path) → Job Layer
  | some p => loadFileBy yaml p
  | none => do
    match ← findFile? directory projectFileNames with
    | some p => loadFileBy yaml p
    | none => pure {}

def reservedKey : String := "__pydantic_self__"

/-- The sources of settings that a value gives in place of the usual ones, which has to be a pair of
them and of something else. None can be given but no sources at all. -/
def checkSources (v : Value) : Except Failure Unit := do
  let pair ← Compiler.Options.looseItems v
  match pair with
  | [sources, _] =>
    if sources.isGiven then throw (.badType "a source of settings cannot be called") else pure ()
  | _ :: _ :: _ :: _ => throw (.badValue "too many values to unpack (expected 2)")
  | short =>
    throw (.badValue
      ("not enough values to unpack (expected 2, got " ++ natText short.length ++ ")"))

def settings (fields : Fields Value) : Job (Checked Settings) := do
  if fields.has reservedKey then throw (.badType ("the key " ++ reservedKey ++ " is reserved"))
  match lookup fields "_build_sources" with
  | .null =>
    let naming ← Job.lift (Naming.ofFields fields)
    let outside ← surrounding naming fields
    let given := merge outside.below (naming.recognized fields)
    pure (Settings.check (merge given outside.above))
  | sources =>
    Job.lift (checkSources sources)
    pure (Settings.check [])

def invalidConfiguration (invalid : List InvalidField) : Failure :=
  .error ⟨.configuration none .null (some "Invalid configuration: <details>") invalid, [], none⟩

/-- Loads the settings of a project. Without a directory the project is the current one. -/
def loadBy (yaml : YamlReader) (directory file : Option Path) (overrides : Fields Value) :
    Job Settings := do
  let user ← loadUserFile
  let project ← loadProjectFile yaml (directory.getD (← get).current) file
  let layer := (Layer.ofFields overrides).mergedOver (project.mergedOver user)
  if !layer.hasTextKeys then throw (.badType "keywords must be strings")
  match ← settings layer.fields with
  | .ok s => pure s
  | .error invalid => throw (invalidConfiguration invalid)

def load (directory file : Option Path) (overrides : Fields Value) : Job Settings :=
  loadBy readYaml directory file overrides

end ChunkBuild.Config
