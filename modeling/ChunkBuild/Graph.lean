import ChunkBuild.Chunk.Registry
import ChunkBuild.Descriptor
/-!
# The chunk graph

A node is a declared chunk with its position, the number of its source files and the nodes of the
earlier chunks it depends on. A node holds the nodes it depends on, so chains of dependencies are
finite by construction.
-/
namespace ChunkBuild

open ChunkBuild.Text ChunkBuild.Json

structure Node where
  chunk : Chunk
  index : Nat
  fileCount : Nat
  dependencies : List Node

namespace Node

def name (n : Node) : String := n.chunk.name

def isRoot (n : Node) : Bool := n.dependencies.isEmpty

/-- The end of the chain of first dependencies. -/
def root : Node → Node
  | ⟨c, i, n, []⟩ => ⟨c, i, n, []⟩
  | ⟨_, _, _, d :: _⟩ => d.root

def dependencyNames (n : Node) : List String := n.dependencies.map name

def descriptor (n : Node) : Descriptor := ⟨n.name, n.fileCount, n.dependencyNames⟩

def spec (n : Node) : String := n.descriptor.text

def summary (n : Node) : String :=
  "ChunkGraphNode(" ++ n.name ++ ", files=" ++ natText n.fileCount ++ ", deps=["
    ++ join ", " n.dependencyNames ++ "])"

/-- A node with a position and a file count from outside, which may be negative. -/
def make (chunk : Chunk) (index fileCount : Int) (dependencies : List Node) : Except Failure Node :=
  match index, fileCount with
  | .negSucc n, _ => .error (.validation "index" (.int (.negSucc n)) "Index cannot be negative")
  | _, .negSucc n =>
    .error (.validation "file_count" (.int (.negSucc n)) "File count cannot be negative")
  | .ofNat i, .ofNat n => .ok ⟨chunk, i, n, dependencies⟩

end Node

structure Graph where
  nodes : List Node
  jsFiles : List String

namespace Graph

def size (g : Graph) : Nat := g.nodes.length

def totalFiles (g : Graph) : Nat :=
  g.nodes.foldr (fun n total => n.fileCount + total) 0

def node? (g : Graph) (name : String) : Option Node := g.nodes.find? (·.name = name)

def specs (g : Graph) : List String := g.nodes.map Node.spec

def root? (g : Graph) : Option Node := g.nodes.head?

/-- The graph as data; its first two fields are raw output under configured names. -/
def toValue (g : Graph) : Fields Value :=
  [("chunk", .texts g.specs), ("js", .texts g.jsFiles),
    ("chunks", .arr (g.nodes.map fun n => .obj
      [("name", .str n.name), ("files", .int n.fileCount),
        ("dependencies", .texts n.dependencyNames), ("exports", .str n.chunk.exportsPath),
        ("import_as", .str n.chunk.importAlias)]))]

def summary (g : Graph) : Except Failure String :=
  match printInteger g.totalFiles, g.root? with
  | .error p, _ => .error (.badValue p.message)
  | .ok _, none => .error .outOfRange
  | .ok total, some root =>
    .ok (natText g.size ++ " chunks, " ++ total ++ " files (root: " ++ root.name ++ ")")

end Graph

/-! ## Resolving

Descriptors come in the order in which the entry points were given, so the i-th descriptor belongs
to the i-th declared chunk. Nicknames are bound one after the other: a dependency can only name a
chunk declared earlier. -/

/-- The nodes bound to nicknames so far. -/
abbrev Bound := List (String × Node)

def Bound.get? (bound : Bound) (nickname : String) : Option Node :=
  (bound.find? (·.1 = nickname)).map (·.2)

/-- The nodes of dependency nicknames, or the first nickname that is not bound. -/
def Bound.nodes (bound : Bound) (chunk : Chunk) : List String → Except Inconsistency (List Node)
  | [] => .ok []
  | nick :: r =>
    match bound.get? nick with
    | none => .error (.unboundNickname chunk.name nick)
    | some n => (nodes bound chunk r).map (n :: ·)

/-- The node of the next chunk, `bound` holding the chunks before it in order. -/
def resolveNode (bound : Bound) (d : Descriptor) (c : Chunk) : Except Inconsistency Node :=
  match bound.nodes c d.dependencies with
  | .error e => .error e
  | .ok deps =>
    if bound.isEmpty && !deps.isEmpty then .error (.rootDepends c.name)
    else if !bound.isEmpty && deps.isEmpty then .error (.independent c.name)
    else if (bound.get? d.nickname).isSome then .error (.boundTwice c.name d.nickname)
    else match h : Node.make c bound.length d.fileCount deps with
      | .ok n => .ok n
      -- a position and the count of a descriptor are never negative
      | .error _ => nomatch h

def resolveFrom (bound : Bound) : List (Descriptor × Chunk) → Except Inconsistency (List Node)
  | [] => .ok []
  | (d, c) :: r =>
    match resolveNode bound d c with
    | .error e => .error e
    | .ok n => (resolveFrom (bound ++ [(d.nickname, n)]) r).map (n :: ·)

def resolve (registry : Registry) (raw : RawOutput) : Except Inconsistency Graph :=
  match raw.descriptors with
  | .error e => .error e
  | .ok ds =>
    if ds.length ≠ registry.size then .error (.countMismatch ds.length registry.size)
    else (resolveFrom [] (ds.zip registry.chunks)).map fun nodes => ⟨nodes, raw.js⟩

end ChunkBuild
