import ChunkBuild.Failure
import ChunkBuild.Graph
import ChunkBuild.Json.Printer
import ChunkBuild.Resolver.Calculator
/-!
# Computing the chunk graph

The graph comes from the tool where it can run, and from the cache otherwise. A live run refreshes
the cache, with paths seen from the project directory so that it serves other machines too.
-/
namespace ChunkBuild

open ChunkBuild.Text ChunkBuild.Json

/-! ## Parts

A build is put together from parts that others provide. What is provided need not be of the kind
that is asked for, and that only shows when the part is used. -/

/-- A part of the kind that is asked for, or another thing, which may have a name. -/
inductive Part (α : Type) where
  | fit (a : α)
  | misplaced (name : Option String)

namespace Part

variable {α : Type}

instance : Coe α (Part α) := ⟨.fit⟩

def failure : Failure := .noAttribute "the part of a build is of another kind"

def get : Part α → Except Failure α
  | .fit a => .ok a
  | .misplaced _ => .error failure

def nameBy (nameOf : α → String) : Part α → Except Failure String
  | .fit a => .ok (nameOf a)
  | .misplaced (some name) => .ok name
  | .misplaced none => .error failure

end Part

/-! ## The cache

A file that keeps the raw output of the graph tool for hosts on which the tool cannot run. -/

structure Cache where
  file : Path
  deriving DecidableEq, Repr

namespace Cache

def unusable (c : Cache) (reason : String) (cause : Option Cause) : Failure :=
  .error ⟨.cacheUnusable c.file.text reason, [], cause⟩

def content (raw : RawOutput) : String := raw.toValue.indented 0 ++ "\n"

def isPresent (c : Cache) : Job Bool := Job.isFile c.file

def load (c : Cache) : Job RawOutput := do
  if !(← c.isPresent) then throw (c.unusable "file not found" none)
  match ← (Job.readText c.file).outcome with
  | .error (.file f) => throw (c.unusable f.message (some (.file f.problem)))
  | .error (.undecodable m) => throw (c.unusable m (some .undecodable))
  | .error (.badValue m) => throw (c.unusable m (some .badValue))
  | .error e => throw e
  | .ok s =>
    match Calculator.readOutput s with
    | .ok raw => pure raw
    | .error (.unreadable (.tooDeep kind)) => throw (.tooDeep kind.message)
    | .error p => throw (c.unusable p.message (some p.cause))

def save (c : Cache) (raw : RawOutput) : Job Unit := do
  Job.ensureDirectories c.file.parent
  Job.writeText c.file (content raw)

end Cache

/-! ## The resolver -/

structure Resolver where
  calculator : Part Calculator
  cache : Part Cache
  projectDirectory : Path

namespace Resolver

def pathOf (r : Resolver) (p : String) : Path := r.projectDirectory.child p

/-- The tool's raw output, or the cache's where the tool cannot run. -/
def loadRaw (r : Resolver) (registry : Registry) (depsFile baseFile : String) : Job RawOutput := do
  let calculator ← Job.lift r.calculator.get
  match ← calculator.ensureSupported.outcome with
  | .error e =>
    if Calculator.isUnsupported e then
      let cache ← Job.lift r.cache.get
      Job.logged .warning (e.message ++ "; using pre-computed chunks from " ++ cache.file.text)
      cache.load
    else throw e
  | .ok () =>
    let raw ← calculator.calculate registry.entryPoints depsFile baseFile
    let raw := raw.relativized r.projectDirectory.text
    (← Job.lift r.cache.get).save raw
    pure raw

def compute (r : Resolver) (registry : Registry) (depsFile baseFile : String) : Job Graph := do
  let raw ← r.loadRaw registry depsFile baseFile
  match resolve registry raw with
  | .error e => throw e.failure
  | .ok g =>
    Job.logged .info
      ("Resolved " ++ natText g.size ++ " chunks over " ++ natText g.jsFiles.length ++ " files")
    pure g

end Resolver

end ChunkBuild
