import ChunkBuild.Compiler.Options
import ChunkBuild.Compiler.Run
import ChunkBuild.Resolver.Compute
import ChunkBuild.Source.License
import ChunkBuild.Source.Map
import ChunkBuild.Source.Transform
import ChunkBuild.Wrapper
/-!
# Building a project

A project holds everything a build needs. Its plan is what is decided before the compiler runs: the
graph, the wrappers and the compiler's options. `build` runs all stages; the first failure ends it.
-/
namespace ChunkBuild

open ChunkBuild.Text ChunkBuild.Json

structure Project where
  directory : Path
  resolver : Resolver
  wrapperStyle : WrapperStyle
  /-- The namespace object as the compiler is told. -/
  namespaceOption : Value := .str wrapperStyle.namespaceName
  compiler : Part CompilerTool
  depsFile : String
  baseFile : String
  buildDirectory : Path
  stagingDirectory : Path
  options : Compiler.Options := {}
  /-- The rights-holders whose license blocks are removed. -/
  holders : Part (List String) := .fit Source.defaultHolders
  paths : Part Source.PathTransform := .fit (.flattening {})
  /-- The source root of source maps, null when it stays. -/
  sourceRoot : Value := .str "./"

structure Plan where
  graph : Graph
  wrappers : Fields String
  options : Fields Value

def Project.planFor (p : Project) (g : Graph) : Plan :=
  let wrappers := p.wrapperStyle.wrappers g
  { graph := g
    wrappers := wrappers
    options := p.options.toFields.putAll
      [("chunk", .texts g.specs),
        ("chunk_wrapper", .texts (wrappers.map fun (name, text) => name ++ ":" ++ text)),
        ("rename_prefix_namespace", p.namespaceOption)] }

def Project.plan (p : Project) (registry : Registry) : Job Plan :=
  return p.planFor (← p.resolver.compute registry p.depsFile p.baseFile)

/-! ## Staging

Before compilation every source is copied into the staging directory, its license blocks blanked
out and its path flattened. The staging directory is emptied first, so it must not be the project
or anything above it. -/

namespace Project

/-- Whether emptying a staging directory would take the project with it. Both paths are absolute
and without `..`. -/
def swallows (staging project : Path) : Bool :=
  staging = project || project.ancestors.contains staging || staging.parts.isEmpty

def checkStaging (p : Project) : Job Unit := do
  let staging ← Job.resolved p.stagingDirectory
  let project ← Job.resolved p.directory
  if swallows staging project then
    throw (.configuration (some "build.staging_dir") (.str p.stagingDirectory.text)
      "Staging directory must not be the project directory or one of its parents")

/-- Whether a normalised path leads out of the directory it is seen from. -/
def leadsOut (relative : Path) : Bool :=
  relative.isAbsolute || relative.parts.head? == some ".."

def stageFile (p : Project) (js : String) : Job (String × Nat) := do
  let relative := (Path.ofText js).normalize
  if leadsOut relative then
    throw (.validation "js" (.str js) "Source lies outside the project directory")
  let holders ← Job.lift p.holders.get
  let source ← Job.readRaw (p.directory.join relative)
  let (text, removed) := Source.normalize holders source
  let flat ← Job.lift ((← Job.lift p.paths.get).flatten relative.text)
  let destination := p.stagingDirectory.child flat
  Job.ensureDirectories destination.parent
  Job.writeText destination text
  pure (flat, removed)

def stageFiles (p : Project) : List String → Job (List (String × Nat))
  | [] => pure []
  | js :: r => do
    let staged ← p.stageFile js
    let later ← p.stageFiles r
    pure (staged :: later)

def stage (p : Project) (jsFiles : List String) : Job (List String × Nat) := do
  p.checkStaging
  if ← Job.exists? p.stagingDirectory then Job.removeTree p.stagingDirectory
  Job.makeDirectories p.stagingDirectory
  let staged ← p.stageFiles jsFiles
  let removed := staged.foldr (fun file total => file.2 + total) 0
  Job.logged .info
    ("Staged " ++ natText staged.length ++ " files (" ++ natText removed
      ++ " license blocks stripped) in " ++ p.stagingDirectory.text)
  pure (staged.map (·.1), removed)

end Project

/-! ## Outputs

After compilation each emitted file gets its final name, and its source map gets its true paths
back. -/

structure BuildResult where
  plan : Plan
  outputs : List Path
  maps : List Path
  stripped : Nat := 0

def mapBeside (p : Path) : Path := p.withName (p.name ++ ".map")

namespace Project

def target (p : Project) (n : Node) : Path := p.buildDirectory.child (p.wrapperStyle.fileName n)

def finalizeOutput (p : Project) (n : Node) (emitted : Path) : Job (Path × Option Path) := do
  let target := p.target n
  Job.rename emitted target
  let emittedMap := mapBeside emitted
  if ← Job.exists? emittedMap then
    let targetMap := mapBeside target
    Job.rename emittedMap targetMap
    let paths ← Job.lift p.paths.get
    let _ ← Source.changeMapFile targetMap paths p.sourceRoot (.str target.name)
    pure (target, some targetMap)
  else
    Job.logged .warning ("No source map emitted for chunk " ++ n.name)
    pure (target, none)

def finalizeOutputs (p : Project) : List (Node × Path) → Job (List (Path × Option Path))
  | [] => pure []
  | (n, emitted) :: r => do
    let done ← p.finalizeOutput n emitted
    let later ← p.finalizeOutputs r
    pure (done :: later)

def finalize (p : Project) (plan : Plan) (emitted : List Path) : Job BuildResult := do
  if emitted.length ≠ plan.graph.size then
    let name ← Job.lift (p.compiler.nameBy CompilerTool.name)
    throw (.error ⟨.toolFailed name [] none
      (some ("Compiler emitted " ++ natText emitted.length ++ " outputs for "
        ++ natText plan.graph.size ++ " chunks")), [], none⟩)
  let done ← p.finalizeOutputs (plan.graph.nodes.zip emitted)
  pure { plan := plan, outputs := done.map (·.1), maps := done.filterMap (·.2) }

def build (p : Project) (registry : Registry) : Job BuildResult := do
  let plan ← p.plan registry
  let (staged, stripped) ← p.stage plan.graph.jsFiles
  let compiler ← Job.lift p.compiler.get
  let emitted ← compiler.compile plan.options staged p.buildDirectory
    (some p.stagingDirectory.text)
  let result ← p.finalize plan emitted
  Job.logged .info
    ("Built " ++ natText result.outputs.length ++ " chunks into " ++ p.buildDirectory.text)
  pure { result with stripped := stripped }

end Project

end ChunkBuild
