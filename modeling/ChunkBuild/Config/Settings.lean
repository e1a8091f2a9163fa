import ChunkBuild.Chunk.Registry
import ChunkBuild.Config.Checked
/-!
# Settings

The configuration of a project with its defaults: what the tools are called, how sources are
transformed, where outputs go, and the declared chunks.
-/
namespace ChunkBuild

open ChunkBuild.Json ChunkBuild.Text ChunkBuild.Config

structure ResolverSettings where
  command : String := "closure-calculate-chunks"
  runtime : String := "node"
  leastVersion : Int := 14
  depsFile : String := "./tests/deps.js"
  baseFile : String := "./closure/goog/base_minimal.js"
  cacheFile : String := "chunks.json"
  deriving DecidableEq, Repr

structure CompilerSettings where
  command : String := "google-closure-compiler"
  externs : List String := []
  compiledSuffix : String := "_compressed"
  namespaceName : String := "$"
  debug : Bool := false
  strict : Bool := false
  verbose : Bool := false
  version : Option String := none
  versionDefine : String := "VERSION"
  deriving DecidableEq, Repr

structure TransformSettings where
  area : String := "core"
  sourceRoot : String := "./"
  holders : List String := ["Google LLC", "Massachusetts Institute of Technology"]
  deriving DecidableEq, Repr

structure BuildSettings where
  buildDirectory : String := "build"
  stagingDirectory : String := "build/.staging"
  deriving DecidableEq, Repr

structure ChunkSettings where
  name : String
  entry : String
  exported : String
  importAs : Option String := none
  preamble : Option String := none
  postamble : Option String := none
  deriving DecidableEq, Repr

structure Settings where
  resolver : ResolverSettings := {}
  compiler : CompilerSettings := {}
  transform : TransformSettings := {}
  build : BuildSettings := {}
  chunks : List ChunkSettings := []
  debug : Bool := false
  deriving DecidableEq, Repr

/-! ## Reading -/

def checkGroup (check : Fields Value → Checked α) : Value → Checked α
  | .obj fields => check fields
  | _ => .misfit .notSection

def checkBindingName : Value → Checked String
  | .str s => if isBindingName s then .fits s else .misfit .rejected
  | _ => .misfit .notText

namespace ResolverSettings

def check (fields : Fields Value) : Checked ResolverSettings :=
  let d : ResolverSettings := {}
  ResolverSettings.mk <$> fieldOr fields "command" d.command checkText
    <*> fieldOr fields "node_command" d.runtime checkText
    <*> fieldOr fields "min_node_version" d.leastVersion checkCount
    <*> fieldOr fields "deps_file" d.depsFile checkText
    <*> fieldOr fields "base_js_path" d.baseFile checkText
    <*> fieldOr fields "cache_file" d.cacheFile checkText

def toFields (s : ResolverSettings) : Fields Value :=
  [("command", .str s.command), ("node_command", .str s.runtime),
    ("min_node_version", .int s.leastVersion), ("deps_file", .str s.depsFile),
    ("base_js_path", .str s.baseFile), ("cache_file", .str s.cacheFile)]

end ResolverSettings

namespace CompilerSettings

def check (fields : Fields Value) : Checked CompilerSettings :=
  let d : CompilerSettings := {}
  CompilerSettings.mk <$> fieldOr fields "command" d.command checkText
    <*> fieldOr fields "externs" d.externs (checkList checkText)
    <*> fieldOr fields "compiled_suffix" d.compiledSuffix checkText
    <*> fieldOr fields "namespace_object" d.namespaceName checkBindingName
    <*> fieldOr fields "debug" d.debug checkFlag
    <*> fieldOr fields "strict" d.strict checkFlag
    <*> fieldOr fields "verbose" d.verbose checkFlag
    <*> fieldOr fields "version" d.version checkOptionalText
    <*> fieldOr fields "version_define" d.versionDefine checkText

def toFields (s : CompilerSettings) : Fields Value :=
  [("command", .str s.command), ("externs", .texts s.externs),
    ("compiled_suffix", .str s.compiledSuffix), ("namespace_object", .str s.namespaceName),
    ("debug", .bool s.debug), ("strict", .bool s.strict), ("verbose", .bool s.verbose),
    ("version", Value.ofOption .str s.version), ("version_define", .str s.versionDefine)]

end CompilerSettings

namespace TransformSettings

def check (fields : Fields Value) : Checked TransformSettings :=
  let d : TransformSettings := {}
  TransformSettings.mk <$> fieldOr fields "flatten_area" d.area checkText
    <*> fieldOr fields "source_root" d.sourceRoot checkText
    <*> fieldOr fields "license_holders" d.holders (checkList checkText)

def toFields (s : TransformSettings) : Fields Value :=
  [("flatten_area", .str s.area), ("source_root", .str s.sourceRoot),
    ("license_holders", .texts s.holders)]

end TransformSettings

namespace BuildSettings

def check (fields : Fields Value) : Checked BuildSettings :=
  let d : BuildSettings := {}
  BuildSettings.mk <$> fieldOr fields "build_dir" d.buildDirectory checkText
    <*> fieldOr fields "staging_dir" d.stagingDirectory checkText

def toFields (s : BuildSettings) : Fields Value :=
  [("build_dir", .str s.buildDirectory), ("staging_dir", .str s.stagingDirectory)]

end BuildSettings

namespace ChunkSettings

def check (fields : Fields Value) : Checked ChunkSettings :=
  ChunkSettings.mk <$> fieldOf fields "name" checkText
    <*> fieldOf fields "entry" checkText
    <*> fieldOf fields "exports" checkText
    <*> fieldOr fields "import_as" none checkOptionalText
    <*> fieldOr fields "factory_preamble" none checkOptionalText
    <*> fieldOr fields "factory_postamble" none checkOptionalText

def toFields (s : ChunkSettings) : Fields Value :=
  [("name", .str s.name), ("entry", .str s.entry), ("exports", .str s.exported),
    ("import_as", Value.ofOption .str s.importAs),
    ("factory_preamble", Value.ofOption .str s.preamble),
    ("factory_postamble", Value.ofOption .str s.postamble)]

def toRecord (s : ChunkSettings) : Fields Value :=
  s.toFields.filter fun f => match f.2 with
    | .null => false
    | _ => true

end ChunkSettings

namespace Settings

def check (fields : Fields Value) : Checked Settings :=
  let d : Settings := {}
  Settings.mk <$> fieldOr fields "resolver" d.resolver (checkGroup ResolverSettings.check)
    <*> fieldOr fields "compiler" d.compiler (checkGroup CompilerSettings.check)
    <*> fieldOr fields "transform" d.transform (checkGroup TransformSettings.check)
    <*> fieldOr fields "build" d.build (checkGroup BuildSettings.check)
    <*> fieldOr fields "chunks" d.chunks (checkList (checkGroup ChunkSettings.check))
    <*> fieldOr fields "debug" d.debug checkFlag

def toFields (s : Settings) : Fields Value :=
  [("resolver", .obj s.resolver.toFields), ("compiler", .obj s.compiler.toFields),
    ("transform", .obj s.transform.toFields), ("build", .obj s.build.toFields),
    ("chunks", .arr (s.chunks.map fun c => .obj c.toFields)), ("debug", .bool s.debug)]

def registry (s : Settings) : Except Failure Registry :=
  Registry.ofRecords (s.chunks.map ChunkSettings.toRecord)

def missing (s : Settings) : List String := if s.chunks.isEmpty then ["chunks"] else []

def isComplete (s : Settings) : Bool := s.missing.isEmpty

end Settings

end ChunkBuild
