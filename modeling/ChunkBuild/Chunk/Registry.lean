import ChunkBuild.Chunk.Definition
/-!
# The registry of declared chunks

The declared chunks in order, at least one, with distinct names and distinct import aliases: two
chunks bound to one parameter would shadow each other in a dependent's wrapper. The first chunk is
the root.
-/
namespace ChunkBuild

open ChunkBuild.Text ChunkBuild.Json

inductive RegistryProblem where
  | empty
  | repeatedName (name : String) (first index : Nat)
  | sharedAlias (importAlias holder name : String)
  deriving DecidableEq, Repr

/-- The first chunk whose name or alias an earlier one has, `seen` being those before. -/
def conflictFrom (seen : List Chunk) : List Chunk → Option RegistryProblem
  | [] => none
  | c :: r =>
    match seen.findIdx? (·.name = c.name), seen.find? (·.importAlias = c.importAlias) with
    | some first, _ => some (.repeatedName c.name first seen.length)
    | none, some other => some (.sharedAlias c.importAlias other.name c.name)
    | none, none => conflictFrom (seen ++ [c]) r

def registryProblem? (chunks : List Chunk) : Option RegistryProblem :=
  if chunks.isEmpty then some .empty else conflictFrom [] chunks

structure Registry where
  chunks : List Chunk
  sound : registryProblem? chunks = none

def RegistryProblem.failure : RegistryProblem → Failure
  | .empty => .configuration (some "chunks") (.arr []) "At least one chunk must be declared"
  | .repeatedName name first index =>
    let reason := "Duplicate chunk name '" ++ name ++ "'"
    .error ⟨.configuration (some "chunks") (.str name) (some reason) [],
      [("first_index", .int first), ("index", .int index)], none⟩
  | .sharedAlias importAlias holder name =>
    .configuration (some "chunks") (.str importAlias)
      ("Import alias '" ++ importAlias ++ "' used by both '" ++ holder ++ "' and '" ++ name ++ "'")

namespace Registry

def ofChunks (chunks : List Chunk) : Except RegistryProblem Registry :=
  match h : registryProblem? chunks with
  | none => .ok ⟨chunks, h⟩
  | some p => .error p

/-- The registry of a list of values; one that declares no chunk is reported first. -/
def ofValues (vs : List Value) : Except Failure Registry := do
  let chunks ← vs.mapM Chunk.ofValue
  (ofChunks chunks).mapError RegistryProblem.failure

def ofRecords (records : List (Fields Value)) : Except Failure Registry :=
  ofValues (records.map .obj)

theorem chunks_ne_nil (r : Registry) : r.chunks ≠ [] := by
  intro h
  have := r.sound
  simp [registryProblem?, h] at this

def root (r : Registry) : Chunk := r.chunks.head r.chunks_ne_nil

def size (r : Registry) : Nat := r.chunks.length

def get? (r : Registry) (name : String) : Option Chunk := r.chunks.find? (·.name = name)

def entryPoints (r : Registry) : List String := r.chunks.map (·.entryPoint)

def toRecords (r : Registry) : List (Fields Value) := r.chunks.map Chunk.toRecord

def isEqual (r s : Registry) : Bool :=
  r.size == s.size && (r.chunks.zip s.chunks).all fun p => p.1.isEqual p.2

def summary (r : Registry) : String :=
  "ChunkRegistry([" ++ join ", " (r.chunks.map (·.name)) ++ "])"

end Registry

/-- The position that an index means in a list of a length; negative ones count from the end. -/
def position? (length : Nat) (i : Int) : Option Nat :=
  let k := if i < 0 then i + length else i
  if 0 ≤ k && k < length then some k.toNat else none

/-- The items from one index up to another; negative ones count from the end and both are cut to
the list. -/
def slice (xs : List α) (start stop : Option Int) : List α :=
  let bound (default : Nat) : Option Int → Nat
    | none => default
    | some i => min xs.length (if i < 0 then i + xs.length else i).toNat
  (xs.take (bound xs.length stop)).drop (bound 0 start)

end ChunkBuild
