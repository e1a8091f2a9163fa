import ChunkBuild.Graph
import ChunkBuild.Json.Printer
/-!
# Loader wrappers

The code around each compiled chunk. The root chunk creates the namespace object that all chunks
share and publishes a handle to it on its exports; every other chunk takes the object from the root
chunk's parameter. A wrapper offers three ways of loading, for the same compiled body.
-/
namespace ChunkBuild

open ChunkBuild.Text ChunkBuild.Json

structure WrapperStyle where
  /-- The shared namespace object. -/
  namespaceName : String := "$"
  /-- What stands after a chunk's name in its file name. -/
  compiledSuffix : String := "_compressed"
  /-- The extension of compiled files, without its dot. -/
  extension : String := "js"
  /-- The property under which the root publishes the namespace object. -/
  handle : String := "internal_"
  /-- What the compiler replaces by the compiled body. -/
  placeholder : String := "%output%"
  deriving DecidableEq, Repr

namespace WrapperStyle

def fileName (w : WrapperStyle) (n : Node) : String :=
  n.name ++ w.compiledSuffix ++ "." ++ w.extension

def defaultPreamble (w : WrapperStyle) (n : Node) : String :=
  if n.isRoot then "const " ++ w.namespaceName ++ "=\x7b\x7d;"
  else "const " ++ w.namespaceName ++ "=" ++ n.root.chunk.importAlias ++ "." ++ w.handle ++ ";"

def defaultPostamble (w : WrapperStyle) (n : Node) : String :=
  if n.isRoot then
    w.namespaceName ++ "." ++ n.chunk.exportsPath ++ "." ++ w.handle ++ "=" ++ w.namespaceName
      ++ ";"
  else ""

/-- The chunks handed to the factory: the dependencies, and the root when it is not among them. -/
def inputs (n : Node) : List Node :=
  if n.isRoot || n.dependencyNames.contains n.root.name then n.dependencies
  else n.dependencies ++ [n.root]

def fileLiteral (w : WrapperStyle) (n : Node) : String := stringText ("./" ++ w.fileName n)

def declaredText (default : String) : Value → String
  | .null => default
  | v => v.display

def wrapper (w : WrapperStyle) (n : Node) : String :=
  let ins := inputs n
  let files := ins.map w.fileLiteral
  let exported := n.chunk.exportsPath
  let preamble := declaredText (w.defaultPreamble n) n.chunk.preamble
  let postamble := declaredText (w.defaultPostamble n) n.chunk.postamble
  "// Do not edit this file; automatically generated.\n\n/* eslint-disable */\n" ++
    ";(function(root, factory) \x7b\n" ++
    "  if (typeof define === 'function' && define.amd) \x7b // AMD\n" ++
    "    define([" ++ join ", " files ++ "], factory);\n" ++
    "  \x7d else if (typeof exports === 'object') \x7b // Node.js\n" ++
    "    module.exports = factory(" ++
      join ", " (files.map fun f => "require(" ++ f ++ ")") ++ ");\n" ++
    "  \x7d else \x7b // Browser\n" ++
    "    root." ++ exported ++ " = factory(" ++
      join ", " (ins.map fun i => "root." ++ i.chunk.exportsPath) ++ ");\n" ++
    "  \x7d\n" ++
    "\x7d(this, function(" ++ join ", " (ins.map fun i => i.chunk.importAlias) ++ ") \x7b\n" ++
    preamble ++ "\n" ++ w.placeholder ++ "\n" ++ postamble ++ "\n" ++
    "return " ++ w.namespaceName ++ "." ++ exported ++ ";\n\x7d));\n"

def wrappers (w : WrapperStyle) (g : Graph) : Fields String :=
  g.nodes.foldl (fun acc n => acc.put n.name (w.wrapper n)) []

def wrapperSpecs (w : WrapperStyle) (g : Graph) : List String :=
  (w.wrappers g).map fun (name, text) => name ++ ":" ++ text

end WrapperStyle

end ChunkBuild
