import ChunkBuild.Compiler.Options
import ChunkBuild.Compiler.Run
import ChunkBuild.Resolver.Compute
import ChunkBuild.Source.License
/-!
# Creating providers

A provider is a part of a build that is made from settings. What it is made from depends on the
name under which it is registered, so a kind of provider under another name gets that name's
settings; it refuses those that it cannot use.
-/
namespace ChunkBuild

open ChunkBuild.Json

inductive ProviderKind where
  | calculator
  | cache
  | compiler
  | normalizer
  | flattening
  deriving DecidableEq, Repr

/-- A provider. The area of a flattening is whatever was configured; paths are only flattened by a
text. -/
inductive Provider where
  | calculator (c : Calculator)
  | cache (c : Cache)
  | compiler (c : CompilerTool)
  | normalizer (holders : List String)
  | flattening (area : Value)

def Provider.name? : Provider → Option String
  | .calculator c => some c.name
  | .compiler c => some c.name
  | .cache _ | .normalizer _ | .flattening _ => none

inductive Material where
  /-- Nothing, so that defaults apply. -/
  | nothing
  | value (v : Value)
  | path (p : Path)
  /-- A directory and configured values by name. -/
  | tool (directory : Path) (given : Fields Value)

def noCommand : Failure := .noAttribute "not a command line"

def commandText (default : String) : Option Value → Except Failure String
  | none => .ok default
  | some (.str s) => .ok s
  | some _ => .error noCommand

def textSetting (default : String) : Option Value → Except Failure String
  | none => .ok default
  | some (.str s) => .ok s
  | some v => .error (.badType ("'" ++ v.kindName ++ "' object is not a text"))

def unsuitable : Except Failure Provider := .error (.badType "unsuitable settings")

def makeCalculator : Material → Except Failure Provider
  | .nothing => tool none []
  | .value v => tool none [("command", v)]
  | .path _ => .error noCommand
  | .tool directory given => tool (some directory) given
where
  /-- A graph tool from settings by name. -/
  tool (directory : Option Path) (given : Fields Value) : Except Failure Provider := do
    let line ← commandText Calculator.defaultCommand (given.get? "command")
    let runtime := (given.get? "node_command").getD (.str "node")
    let least := (given.get? "min_node_version").getD (.int 14)
    pure (.calculator (← Calculator.ofCommand line runtime least directory))

def makeCache : Material → Except Failure Provider
  | .path p => .ok (.cache ⟨p⟩)
  | .value (.str s) => .ok (.cache ⟨Path.ofText s⟩)
  | _ => unsuitable

def makeCompiler : Material → Except Failure Provider
  | .nothing => tool none none
  | .value v => tool none (some v)
  | .path _ => .error noCommand
  | .tool directory given =>
    if given.all (·.1 = "command") then tool (some directory) (given.get? "command") else unsuitable
where
  tool (directory : Option Path) (command : Option Value) : Except Failure Provider := do
    let line ← commandText CompilerTool.defaultCommand command
    pure (.compiler (← CompilerTool.ofCommand line directory))

def makeNormalizer : Material → Except Failure Provider
  | .nothing => .ok (.normalizer Source.defaultHolders)
  | .value v => do
    match (Value.arr (← Compiler.Options.looseItems v)).texts? with
    | some holders => pure (.normalizer holders)
    | none => unsuitable
  | .path _ | .tool _ _ => unsuitable

def makeFlattening : Material → Except Failure Provider
  | .nothing => .ok (.flattening (.str "core"))
  | .value v => .ok (.flattening v)
  | .path p => .ok (.flattening (.str p.text))
  | .tool _ _ => unsuitable

def ProviderKind.make : ProviderKind → Material → Except Failure Provider
  | .calculator => makeCalculator
  | .cache => makeCache
  | .compiler => makeCompiler
  | .normalizer => makeNormalizer
  | .flattening => makeFlattening

/-- Kinds of things that are made from material. -/
class Makes (κ : Type) (ι : outParam Type) where
  make : κ → Material → Except Failure ι

instance : Makes ProviderKind Provider := ⟨ProviderKind.make⟩

end ChunkBuild
