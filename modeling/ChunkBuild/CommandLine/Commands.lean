import ChunkBuild.CommandLine.Arguments
import ChunkBuild.CommandLine.Terminal
import ChunkBuild.Config.Layers
import ChunkBuild.Report
/-!
# The commands of the program

Building, showing the graph, and showing and checking the configuration. `run` carries out a command
line: it gives the exit code, or the failure that was not handled, and the terminal as the command
left it.
-/
namespace ChunkBuild.CommandLine

open ChunkBuild.Json ChunkBuild.Text

namespace Command

def printJson (v : Value) : Command Unit :=
  if v.isUnprintable then lift (.error (.badValue IntegerProblem.unprintable.message))
  else print (v.indented 0 ++ "\n")

def projectDirectory (p : Parsed) : Command Path := job (Job.resolved p.place)

def loadSettings (p : Parsed) (directory : Path) : Command Settings :=
  job (Config.load (some directory) p.configFile p.overrides)

def useSettings (s : Settings) (directory : Path) : Command Unit :=
  modify fun t => { t with providers := t.providers.configure (.obj s.toFields) (some directory) }

def build (p : Parsed) : Command Unit := do
  let directory ← projectDirectory p
  print (Report.info ("Starting ChunkLink v" ++ programVersion))
  print (Report.info ("Project directory: " ++ directory.text))
  let settings ← loadSettings p directory
  let registry ← lift settings.registry
  print (Report.detail p.isVerbose ("Chunks: " ++ join ", " (registry.chunks.map (·.name))))
  useSettings settings directory
  let project ← provided Providers.project
  let result ← job (project.build registry)
  print (Report.success ("Build complete: " ++ (← lift result.plan.graph.summary)))
  print (Report.info ("License blocks stripped: " ++ natText result.stripped))
  result.outputs.forM fun o => print (Report.detail p.isVerbose ("Wrote " ++ o.text))

def resolveGraph (p : Parsed) (settings : Settings) (registry : Registry) :
    Command (Graph × Fields String) := do
  if p.has "--wrappers" then
    let plan ← job ((← provided Providers.project).plan registry)
    pure (plan.graph, plan.wrappers)
  else
    let resolver ← provided Providers.resolver
    let g ← job (resolver.compute registry settings.resolver.depsFile settings.resolver.baseFile)
    pure (g, [])

def graph (p : Parsed) : Command Unit := do
  let directory ← projectDirectory p
  let settings ← loadSettings p directory
  let registry ← lift settings.registry
  useSettings settings directory
  let (g, wrappers) ← resolveGraph p settings registry
  if p.has "--json" then
    let shown := wrappers.map fun (name, w) => (name, Value.str w)
    printJson (.obj (g.toValue ++ (if shown.isEmpty then [] else [("wrappers", .obj shown)])))
  else
    print (Report.info (← lift g.summary))
    print (Report.graphTable g)
    g.specs.forM fun s => print (Report.detail p.isVerbose ("--chunk " ++ s))
    wrappers.forM fun (name, w) => print (Report.titled ("Wrapper: " ++ name) w)

def showSettings (p : Parsed) : Command Unit := do
  let settings ← loadSettings p (← projectDirectory p)
  printJson (.obj settings.toFields)

def refuse (message : String) : Command α := do
  printError (Report.error message)
  exit 1

def validateSettings (p : Parsed) : Command Unit := do
  let settings ← loadSettings p (← projectDirectory p)
  if !settings.isComplete then
    refuse ("Missing configuration: " ++ join ", " settings.missing)
  match settings.registry with
  | .error (.error e) =>
    match e.kind with
    | .configuration _ _ _ _ => refuse e.message
    | _ => lift (.error (.error e))
  | .error e => lift (.error e)
  | .ok r =>
    print (Report.success
      ("Configuration valid: " ++ natText r.size ++ " chunks, root chunk " ++ r.root.name))
    r.chunks.forM fun c => print (Report.detail p.isVerbose
      (c.name ++ ": " ++ c.entryPoint ++ " -> " ++ c.exportsPath ++ " as " ++ c.importAlias))

def reject (reason message : String) : Command α := do
  logError reason
  logError message
  exit 1

def checkPlace (p : Path) : Command Unit := do
  let invalid := "Invalid path: " ++ p.text
  if !(← job (Job.exists? p)) then reject ("Path does not exist: " ++ p.text) invalid
  if !(← job (Job.isDirectory p)) then reject ("Path is not a directory: " ++ p.text) invalid

def checkConfigFile : Option Path → Command Unit
  | none => pure ()
  | some p => do
    let invalid := "Invalid config file: " ++ p.text
    if !(← job (Job.isFile p)) then reject ("Config file does not exist: " ++ p.text) invalid
    if !([".json", ".yaml", ".yml"].contains p.suffix) then
      reject ("Config file must be JSON or YAML: " ++ p.text) invalid

def named (p : Parsed) : List String → Command Unit
  | ["build"] => build p
  | ["graph"] => graph p
  | ["config", "show"] => showSettings p
  | ["config", "validate"] => validateSettings p
  | _ => do
    print programGrammar.usage
    exit 1

def checkPaths (p : Parsed) : Command Unit := unguarded do
  checkPlace p.place
  if p.lacksConfigFile then lift (.error (.noAttribute "an empty list is no path"))
  checkConfigFile p.configFile

def dispatch (p : Parsed) : Command Unit := do
  if !p.commands.isEmpty then checkPaths p
  named p p.commands

def stop : Stop → Command Unit
  | .help g => print g.usage
  | .version => print ("chunklink " ++ programVersion ++ "\n")
  | .misuse g message => do
    printError (g.usage ++ g.program ++ ": error: " ++ message ++ "\n")
    exit 2

def ofWords (ws : List String) : Command Unit :=
  match parse programGrammar ws with
  | .ok p => dispatch p
  | .error s => stop s

end Command

/-- How a failure is logged: the program's own errors end a build, others the command. -/
def failureMessage : Failure → String
  | .error e => "Build failed: " ++ e.message
  | e => "Command failed: " ++ e.message

def run (ws : List String) (t : Terminal) : Except Failure Nat × Terminal :=
  match (Command.ofWords ws).run t with
  | .ok () t => (.ok 0, t)
  | .error (.exited code) t => (.ok code, t)
  | .error (.failed (.ended code)) t => (.ok code, t)
  | .error (.crashed e) t => (.error e, t)
  | .error (.failed e) t =>
    let entry := (LogLevel.error, failureMessage e)
    (.ok 1, { t with host := { t.host with log := t.host.log ++ [entry] } })

end ChunkBuild.CommandLine
