import ChunkBuild.Failure
import ChunkBuild.Text.Integer
/-!
# Chunk descriptors and the resolver's raw output

The graph tool describes each chunk as `nickname:fileCount[:dependency,…]`, under nicknames of its
own, and lists all source files in order. A graph in which the configured names stand for the
nicknames is written in the same form.
-/
namespace ChunkBuild

open ChunkBuild.Text ChunkBuild.Json

inductive Inconsistency where
  | malformed (descriptor : String)
  | notNumeric (descriptor nickname : String)
  | negative (descriptor nickname : String)
  | countMismatch (descriptors chunks : Nat)
  | unboundNickname (chunk nickname : String)
  | rootDepends (chunk : String)
  | independent (chunk : String)
  | boundTwice (chunk nickname : String)
  deriving DecidableEq, Repr

namespace Inconsistency

def reason : Inconsistency → String
  | .malformed d => "Malformed chunk descriptor '" ++ d ++ "'"
  | .notNumeric d _ => "Non-numeric file count in descriptor '" ++ d ++ "'"
  | .negative d _ => "Negative file count in descriptor '" ++ d ++ "'"
  | .countMismatch descriptors chunks =>
    "Resolver returned " ++ natText descriptors ++ " chunk descriptors for " ++ natText chunks
      ++ " declared chunks"
  | .unboundNickname _ _ => "Dependency nickname is not bound to an earlier chunk"
  | .rootDepends _ => "The first declared chunk cannot have dependencies"
  | .independent _ => "Every chunk after the first must depend on an earlier chunk"
  | .boundTwice _ _ => "Nickname is already bound to another chunk"

def chunk? : Inconsistency → Option String
  | .unboundNickname c _ | .rootDepends c | .independent c | .boundTwice c _ => some c
  | _ => none

def nickname? : Inconsistency → Option String
  | .notNumeric _ n | .negative _ n | .unboundNickname _ n | .boundTwice _ n => some n
  | _ => none

def failure (i : Inconsistency) : Failure :=
  .error ⟨.inconsistent i.reason i.chunk? i.nickname?, [], none⟩

end Inconsistency

structure Descriptor where
  nickname : String
  fileCount : Nat
  dependencies : List String
  deriving DecidableEq, Repr

def Descriptor.fields? (s : String) : Option (String × String × Option String) :=
  match split ":" s with
  | [nickname, count] => if nickname.isEmpty then none else some (nickname, count, none)
  | [nickname, count, deps] => if nickname.isEmpty then none else some (nickname, count, some deps)
  | _ => none

def Descriptor.nicknames (s : String) : List String := if s.isEmpty then [] else split "," s

def Descriptor.parse (s : String) : Except Inconsistency Descriptor :=
  match fields? s with
  | none => .error (.malformed s)
  | some (nickname, countText, deps) =>
    match readInteger countText with
    | .error _ => .error (.notNumeric s nickname)
    | .ok (.negSucc _) => .error (.negative s nickname)
    | .ok (.ofNat count) => .ok ⟨nickname, count, nicknames (deps.getD "")⟩

def Descriptor.text (d : Descriptor) : String :=
  d.nickname ++ ":" ++ natText d.fileCount ++
    (if d.dependencies.isEmpty then "" else ":" ++ join "," d.dependencies)

structure RawOutput where
  chunk : List String
  js : List String
  deriving DecidableEq, Repr

inductive RawProblem where
  | notObject (kind : String)
  | badChunk
  | badJs
  deriving DecidableEq, Repr

def RawProblem.message : RawProblem → String
  | .notObject kind => "Expected a JSON object, got " ++ kind
  | .badChunk => "'chunk' must be a list of strings"
  | .badJs => "'js' must be a list of strings"

namespace RawOutput

def ofValue (v : Value) : Except RawProblem RawOutput :=
  match v.fields? with
  | none => .error (.notObject v.kindName)
  | some fields =>
    match (lookup fields "chunk").texts?, (lookup fields "js").texts? with
    | none, _ => .error .badChunk
    | some _, none => .error .badJs
    | some chunk, some js => .ok ⟨chunk, js⟩

def toValue (r : RawOutput) : Value :=
  .obj [("chunk", .texts r.chunk), ("js", .texts r.js)]

def descriptors (r : RawOutput) : Except Inconsistency (List Descriptor) :=
  r.chunk.mapM Descriptor.parse

def isSlash (c : Char) : Bool := c == '/' || c == '\\'

/-- A path below `base` seen from there, with a leading `.`; any other path as it is. -/
def relativeTo (base path : List Char) : List Char :=
  match after? base path with
  | some (c :: r) => if !base.isEmpty && isSlash c then '.' :: c :: r else path
  | _ => path

def relativized (r : RawOutput) (directory : String) : RawOutput :=
  let base := trimEndBy isSlash directory.toList
  { r with js := r.js.map fun p => String.ofList (relativeTo base p.toList) }

end RawOutput

end ChunkBuild
