import ChunkBuild.CommandLine.Grammar
import ChunkBuild.Json.Value
import ChunkBuild.Path
/-!
# The arguments of the program

The commands of the program with their options, and the settings that the options override.
-/
namespace ChunkBuild.CommandLine

open ChunkBuild.Json ChunkBuild.Text

def programVersion : String := "0.3.0"

def helpOption : Opt := ⟨["-h", "--help"], .help⟩

def commonOptions : List Opt :=
  [helpOption, ⟨["--verbose", "-v"], .flag⟩, ⟨["--config"], .value⟩]

def graphOptions : List Opt :=
  [⟨["--deps-file"], .value⟩, ⟨["--base-js-path"], .value⟩, ⟨["--cache-file"], .value⟩]

def buildGrammar : Grammar :=
  .place "chunklink build"
    (commonOptions ++ graphOptions ++
      [⟨["--build-dir"], .value⟩, ⟨["--debug"], .flag⟩, ⟨["--strict"], .flag⟩,
        ⟨["--version-string"], .value⟩])

def graphGrammar : Grammar :=
  .place "chunklink graph"
    (commonOptions ++ graphOptions ++ [⟨["--json"], .flag⟩, ⟨["--wrappers"], .flag⟩])

def configGrammar : Grammar :=
  .commands "chunklink config" [helpOption] "config_command" true
    [("show", .place "chunklink config show" commonOptions),
      ("validate", .place "chunklink config validate" commonOptions)]

def programGrammar : Grammar :=
  .commands "chunklink" [helpOption, ⟨["--version"], .version⟩] "command" false
    [("build", buildGrammar), ("graph", graphGrammar), ("config", configGrammar)]

namespace Parsed

def has (p : Parsed) (name : String) : Bool := p.flags.contains name

def value? (p : Parsed) (name : String) : Option String :=
  (p.values.get? name).join.filter (!·.isEmpty)

def place (p : Parsed) : Path := Path.ofText (p.operand.getD ".")

/-- Whether the configuration file was named and then taken back. -/
def lacksConfigFile (p : Parsed) : Bool := p.values.get? "--config" = some none

def configFile (p : Parsed) : Option Path := (p.values.get? "--config").join.map Path.ofText

def isVerbose (p : Parsed) : Bool := p.has "--verbose"

def textSetting (p : Parsed) (name key : String) : Fields Value :=
  (p.value? name).toList.map fun s => (key, .str s)

def flagSetting (p : Parsed) (name key : String) : Fields Value :=
  if p.has name then [(key, .bool true)] else []

def groupOf (name : String) (fields : Fields Value) : Fields Value :=
  if fields.isEmpty then [] else [(name, .obj fields)]

def overrides (p : Parsed) : Fields Value :=
  groupOf "resolver"
      (p.textSetting "--deps-file" "deps_file" ++ p.textSetting "--base-js-path" "base_js_path" ++
        p.textSetting "--cache-file" "cache_file") ++
    groupOf "compiler"
      (p.flagSetting "--debug" "debug" ++ p.flagSetting "--strict" "strict" ++
        p.flagSetting "--verbose" "verbose" ++ p.textSetting "--version-string" "version") ++
    groupOf "build" (p.textSetting "--build-dir" "build_dir")

end Parsed

end ChunkBuild.CommandLine
