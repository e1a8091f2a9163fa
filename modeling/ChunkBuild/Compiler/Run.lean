import ChunkBuild.Host.Programs
import ChunkBuild.Json.Printer
import ChunkBuild.Path
import ChunkBuild.Text.Words
/-!
# Running the tools

How the words of a configured command, the options and the files become the arguments with which
the compiler and the graph tool are started. One run of the compiler compiles all chunks. What it prints
is its own affair; only whether it ends well counts.
-/
namespace ChunkBuild.Compiler

open ChunkBuild.Json ChunkBuild.Text

/-- The flags of one option: none for a missing or refused one, a bare flag for a granted one, a
flag per item for a list. -/
def renderFlag (key : String) : Value → List String
  | .null => []
  | .bool false => []
  | .bool true => ["--" ++ key]
  | .arr items => items.map fun item => "--" ++ key ++ "=" ++ item.display
  | v => ["--" ++ key ++ "=" ++ v.display]

def renderFlags (options : Fields Value) : List String :=
  options.flatMap fun (key, v) => renderFlag key v

def toolName (command : List String) (default : String) : String :=
  match command.getLast? with
  | some word => (Path.ofText word).name
  | none => default

def compilerName (command : List String) : String := toolName command "closure-compiler"

def calculatorName (command : List String) : String :=
  toolName command "closure-calculate-chunks"

def compilerCommand (command : List String) (options : Fields Value) (sources : List String)
    (outputDirectory : Path) : List String :=
  command ++ renderFlags options ++
    ["--chunk_output_path_prefix=" ++ outputDirectory.text ++ "/",
      "--create_source_map=%outname%.map"] ++
    sources.map ("--js=" ++ ·)

def calculatorCommand (command entryPoints : List String) (depsFile baseFile : String) :
    List String :=
  command ++ ["--closure-library-base-js-path", baseFile, "--deps-file", depsFile] ++
    entryPoints.flatMap fun e => ["--entrypoint", e]

def chunkNames (specs : List String) : List String :=
  specs.map fun s => String.ofList (s.toList.takeWhile (· ≠ ':'))

def emittedFiles (outputDirectory : Path) (names : List String) : List Path :=
  names.map fun n => outputDirectory.child (n ++ ".js")

end ChunkBuild.Compiler

namespace ChunkBuild

open ChunkBuild.Text ChunkBuild.Json

structure CompilerTool where
  command : List String
  /-- The directory in which it runs unless a run names another. -/
  directory : Option Path := none
  deriving DecidableEq, Repr

namespace CompilerTool

def defaultCommand : String := "google-closure-compiler"

def ofCommand (line : String) (directory : Option Path) : Except Failure CompilerTool :=
  match words line with
  | .ok ws => .ok ⟨ws, directory⟩
  | .error p => .error (.badValue p.message)

def name (c : CompilerTool) : String := Compiler.compilerName c.command

def failed (c : CompilerTool) (command : List String) (status : Option Int) (reason : String)
    (cause : Option Cause) : Failure :=
  .error ⟨.toolFailed c.name command status (some reason), [], cause⟩

def chunkNames (options : Fields Value) : Except Failure (List String) :=
  match (options.get? "chunk").getD (.arr []) with
  | .arr items =>
    match (Value.arr items).texts? with
    | some specs => .ok (Compiler.chunkNames specs)
    | none => .error (.noAttribute "object has no attribute 'split'")
  | .str s => .ok (Compiler.chunkNames (splitLetters s))
  | .obj fields => .ok (Compiler.chunkNames (fields.map (·.1)))
  | v => .error (.badType ("'" ++ v.kindName ++ "' object is not iterable"))

def compile (c : CompilerTool) (options : Fields Value) (sources : List String)
    (outputDirectory : Path) (directory : Option String) : Job (List Path) := do
  Job.ensureDirectories outputDirectory
  let command := Compiler.compilerCommand c.command options sources outputDirectory
  Job.logged .info ("Compiling " ++ natText sources.length ++ " files with " ++ c.name)
  let place := (directory.filter (!·.isEmpty)).or (c.directory.map Path.text)
  match ← (Job.start command place).outcome with
  | .error (.file f) | .ok (.refused f) =>
    throw (c.failed command none f.message (some (.file f.problem)))
  | .error e => throw e
  | .ok (.ended exit _ _) =>
    if exit ≠ 0 then throw (c.failed command (some exit) "compilation failed" (some .exitStatus))
    let names ← Job.lift (chunkNames options)
    pure (Compiler.emittedFiles outputDirectory names)

end CompilerTool

end ChunkBuild
