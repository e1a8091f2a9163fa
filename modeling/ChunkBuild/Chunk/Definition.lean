import ChunkBuild.Failure
import ChunkBuild.Json.Value
import ChunkBuild.Text.Characters
/-!
# Declared chunks

One independently loadable unit of compiled output: its name, the source file at its root, the
dotted symbol it exports and the parameter name under which dependents receive those exports.
A `Chunk` is a declaration without a problem, so every chunk satisfies the rules by its type.
-/
namespace ChunkBuild

open ChunkBuild.Text ChunkBuild.Json

/-- The fields of a chunk as written, not yet checked. The preamble and the postamble may be any
values, null when they are not declared. -/
structure Declaration where
  name : String
  entryPoint : String
  exportsPath : String
  importAlias : String
  preamble : Value := .null
  postamble : Value := .null

inductive DeclarationProblem where
  | blankName
  | reservedCharacter
  | blankEntryPoint
  | badExportsPath
  | badImportAlias
  deriving DecidableEq, Repr

/-- The characters that separate the fields of a descriptor, and so cannot stand in a name. -/
def isReserved (c : Char) : Bool := c == ':' || c == ','

def isExportsPath (s : String) : Bool := (split "." s).all isBindingName

def nameProblem? (s : String) : Option DeclarationProblem :=
  if isBlankText s then some .blankName
  else if s.toList.any isReserved then some .reservedCharacter
  else none

def entryPointProblem? (s : String) : Option DeclarationProblem :=
  if isBlankText s then some .blankEntryPoint else none

def exportsPathProblem? (s : String) : Option DeclarationProblem :=
  if isExportsPath s then none else some .badExportsPath

def importAliasProblem? (s : String) : Option DeclarationProblem :=
  if isBindingName s then none else some .badImportAlias

def Declaration.problem? (d : Declaration) : Option DeclarationProblem :=
  (nameProblem? d.name).or ((entryPointProblem? d.entryPoint).or
    ((exportsPathProblem? d.exportsPath).or (importAliasProblem? d.importAlias)))

structure Chunk extends Declaration where
  sound : toDeclaration.problem? = none

def DeclarationProblem.failure (v : Value) : DeclarationProblem → Failure
  | .blankName => .validation "name" v "Chunk name cannot be empty"
  | .reservedCharacter => .validation "name" v "Chunk name cannot contain ':' or ','"
  | .blankEntryPoint => .validation "entry_point" v "Entry point cannot be empty"
  | .badExportsPath => .validation "exports_path" v "Exports path must be a dotted identifier"
  | .badImportAlias => .validation "import_alias" v "Import alias must be a valid identifier"

def notText (v : Value) : Failure :=
  .noAttribute ("'" ++ v.kindName ++ "' object has no attribute 'strip'")

/-- The text of a field without a problem. A value that does not count as given has the problem
`absent`, whatever its kind. -/
def checkedText (problem? : String → Option DeclarationProblem) (absent : DeclarationProblem) :
    Value → Except Failure { s : String // problem? s = none }
  | .str s =>
    match h : problem? s with
    | none => .ok ⟨s, h⟩
    | some p => .error (p.failure (.str s))
  | v => .error (if v.isGiven then notText v else absent.failure v)

def Chunk.ofValues (name entryPoint exportsPath importAlias preamble postamble : Value) :
    Except Failure Chunk := do
  let ⟨name, hn⟩ ← checkedText nameProblem? .blankName name
  let ⟨entryPoint, he⟩ ← checkedText entryPointProblem? .blankEntryPoint entryPoint
  let ⟨exportsPath, hx⟩ ← checkedText exportsPathProblem? .badExportsPath exportsPath
  let ⟨importAlias, ha⟩ ← checkedText importAliasProblem? .badImportAlias importAlias
  pure ⟨⟨name, entryPoint, exportsPath, importAlias, preamble, postamble⟩,
    by simp [Declaration.problem?, hn, he, hx, ha]⟩

/-- The parameter name that an exports path gives when none is declared: its parts run together. -/
def defaultImportAlias (exportsPath : String) : String := replace "." "" exportsPath

def recordField (record : Fields Value) (spelling other : String) : Value :=
  (record.get? spelling).getD (lookup record other)

def requiredField (field label : String) (v : Value) : Except Failure Value :=
  if v.isGiven then .ok v else .error (.validation field v (label ++ " is required"))

/-- The import alias of a record: its own when one is given, else that of the exports path. -/
def aliasValue (exportsPath v : Value) : Except Failure Value :=
  if v.isGiven then .ok v
  else match exportsPath with
    | .str s => .ok (.str (defaultImportAlias s))
    | w => .error (notText w)

/-- The chunk of a record. Fields go by the configuration's spelling or by the model's; an alias may
be left out. All required fields are looked for before any of them is checked. -/
def Chunk.ofRecord (record : Fields Value) : Except Failure Chunk := do
  let name ← requiredField "name" "Chunk name" (lookup record "name")
  let entryPoint ←
    requiredField "entry_point" "Entry point" (recordField record "entry_point" "entry")
  let exportsPath ←
    requiredField "exports_path" "Exports path" (recordField record "exports_path" "exports")
  let importAlias ← aliasValue exportsPath (recordField record "import_alias" "import_as")
  Chunk.ofValues name entryPoint exportsPath importAlias
    (lookup record "factory_preamble") (lookup record "factory_postamble")

def Chunk.ofValue : Value → Except Failure Chunk
  | .obj record => Chunk.ofRecord record
  | v => .error (.noAttribute ("'" ++ v.kindName ++ "' object has no attribute 'get'"))

def declaredField (key : String) : Value → Fields Value
  | .null => []
  | v => [(key, v)]

def Chunk.toRecord (c : Chunk) : Fields Value :=
  [("name", .str c.name), ("entry", .str c.entryPoint), ("exports", .str c.exportsPath),
    ("import_as", .str c.importAlias)] ++
    declaredField "factory_preamble" c.preamble ++ declaredField "factory_postamble" c.postamble

def Chunk.isEqual (c d : Chunk) : Bool :=
  c.name == d.name && c.entryPoint == d.entryPoint && c.exportsPath == d.exportsPath &&
    c.importAlias == d.importAlias && c.preamble.isEqual d.preamble &&
    c.postamble.isEqual d.postamble

def Chunk.summary (c : Chunk) : String :=
  c.name ++ " (" ++ c.entryPoint ++ " -> " ++ c.exportsPath ++ ")"

end ChunkBuild
