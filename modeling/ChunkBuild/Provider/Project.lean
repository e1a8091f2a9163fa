import ChunkBuild.Build
import ChunkBuild.Provider.Container
/-!
# Projects from providers

A resolver and a whole project, put together from the providers and settings of a container.
-/
namespace ChunkBuild

open ChunkBuild.Json

namespace Provider

def asCalculator : Provider → Part Calculator
  | .calculator c => .fit c
  | p => .misplaced p.name?

def asCache : Provider → Part Cache
  | .cache c => .fit c
  | p => .misplaced p.name?

def asCompiler : Provider → Part CompilerTool
  | .compiler c => .fit c
  | p => .misplaced p.name?

def asHolders : Provider → Part (List String)
  | .normalizer holders => .fit holders
  | p => .misplaced p.name?

def asPaths : Provider → Part Source.PathTransform
  | .flattening (.str area) => .fit (.flattening { area := area })
  | .flattening area =>
    let usual : Source.Flattening := {}
    .fit (.irregular ⟨area, .str usual.token, .str usual.separator⟩)
  | p => .misplaced p.name?

end Provider

namespace Providers

def fetch (ps : Providers) (name : String) : Job (Provider × Providers) := do
  match ps.get name with
  | .ok (i, ps) => pure (i.provider, ps)
  | .error e =>
    if ps.registered.has name then
      Job.logged .error ("Failed to create " ++ name ++ " provider: " ++ e.message)
    throw e

def resolver (ps : Providers) : Job (Resolver × Providers) := do
  let (calculator, ps) ← ps.fetch "graph_calculator"
  let (cache, ps) ← ps.fetch "resolver_cache"
  pure (⟨calculator.asCalculator, cache.asCache, ps.directory⟩, ps)

def wrapperSettings (ps : Providers) : Except Failure (Value × Value) := do
  let g ← ps.group "compiler"
  let d : WrapperStyle := {}
  pure ((g.get? "namespace_object").getD (.str d.namespaceName),
    (g.get? "compiled_suffix").getD (.str d.compiledSuffix))

def wrapperStyle (ps : Providers) : Except Failure WrapperStyle := do
  let (namespaceObject, suffix) ← ps.wrapperSettings
  pure { namespaceName := namespaceObject.display, compiledSuffix := suffix.display }

def options (ps : Providers) : Except Failure Compiler.Options := do
  Compiler.Options.forBuild (← ps.group "compiler")

/-- The whole project. Its parts are made in a fixed order, and the directories are looked at
last. -/
def project (ps : Providers) : Job (Project × Providers) := do
  let (resolver, ps) ← ps.resolver
  let (namespaceObject, _) ← Job.lift ps.wrapperSettings
  let style ← Job.lift ps.wrapperStyle
  let (compiler, ps) ← ps.fetch "compiler"
  let resolverGroup ← Job.lift (ps.group "resolver")
  let buildGroup ← Job.lift (ps.group "build")
  let options ← Job.lift ps.options
  let (normalizer, ps) ← ps.fetch "license_normalizer"
  let (transform, ps) ← ps.fetch "path_transform"
  let transformGroup ← Job.lift (ps.group "transform")
  let value (fields : Fields Value) (key default : String) : Value :=
    (fields.get? key).getD (.str default)
  let below (key default : String) : Job Path := do
    return ps.directory.child (← Job.lift (textSetting default (buildGroup.get? key)))
  let buildDirectory ← below "build_dir" "build"
  let stagingDirectory ← below "staging_dir" "build/.staging"
  pure
    ({ directory := ps.directory
       resolver := resolver
       wrapperStyle := style
       namespaceOption := namespaceObject
       compiler := compiler.asCompiler
       depsFile := (value resolverGroup "deps_file" "./tests/deps.js").display
       baseFile := (value resolverGroup "base_js_path" "./closure/goog/base_minimal.js").display
       buildDirectory := buildDirectory
       stagingDirectory := stagingDirectory
       options := options
       holders := normalizer.asHolders
       paths := transform.asPaths
       sourceRoot := value transformGroup "source_root" "./" }, ps)

end Providers

end ChunkBuild
