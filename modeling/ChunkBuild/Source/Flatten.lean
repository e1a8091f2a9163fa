import ChunkBuild.Failure
/-!
# Flattened paths

Paths below one reserved area are moved into its top directory, each former directory boundary
being written as a token, so that all of them share one directory. `restore` undoes it.
-/
namespace ChunkBuild.Source

open ChunkBuild.Text ChunkBuild.Json

inductive FlattenProblem where
  | emptyArea (area : String)
  | badToken (token : String)
  | reservedToken (path segment token : String)
  deriving DecidableEq, Repr

def refusedArea (area : Value) : Failure :=
  .validation "area" area "Flatten area cannot be empty"

def refusedToken (token : Value) : Failure :=
  .validation "token" token "Token must be non-empty and separator-free"

def FlattenProblem.failure : FlattenProblem → Failure
  | .emptyArea area => refusedArea (.str area)
  | .badToken token => refusedToken (.str token)
  | .reservedToken path segment token =>
    .validation "path" (.str path)
      ("Segment '" ++ segment ++ "' contains reserved token '" ++ token ++ "'")

structure Flattening where
  area : String := "core"
  token : String := "-slash-"
  separator : String := "/"
  deriving DecidableEq, Repr

structure PathParts where
  directory : String
  base : String
  extension : String := ""
  deriving DecidableEq, Repr

/-- The base and the extension of a file name. Dots at its start begin no extension, and neither
does a dot before a slash. -/
def splitExtension (name : List Char) : List Char × List Char :=
  match cutLast ['.'] name with
  | none => (name, [])
  | some (before, after) =>
    let directory := match cutLast ['/'] name with
      | some (d, _) => d ++ ['/']
      | none => []
    if after.contains '/' || (before.drop directory.length).all (· == '.') then (name, [])
    else (before, '.' :: after)

namespace Flattening

def make (area token separator : String) : Except FlattenProblem Flattening :=
  if area.isEmpty then .error (.emptyArea area)
  else if token.isEmpty || contains separator token then .error (.badToken token)
  else .ok ⟨area, token, separator⟩

variable (f : Flattening)

def segments (directory : String) : List String := split f.separator directory

def appliesTo (p : PathParts) : Bool := (f.segments p.directory).head? == some f.area

/-- Takes a path apart at its last separator, of which one letter is dropped. -/
def take (path : String) : PathParts :=
  let (directory, name) := match cutLast f.separator.toList path.toList with
    | some (d, n) => (d, ((letters f.separator.toList).drop 1).flatten ++ n)
    | none => ([], path.toList)
  let (base, extension) := splitExtension name
  ⟨String.ofList directory, String.ofList base, String.ofList extension⟩

def put (p : PathParts) : String :=
  let name := p.base ++ p.extension
  if p.directory.isEmpty then name else p.directory ++ f.separator ++ name

/-- Moves a path below the area into its top directory; a segment that holds the token could not be
restored and is refused. -/
def forward (p : PathParts) : Except FlattenProblem PathParts :=
  if !f.appliesTo p then .ok p
  else
    let parts := (f.segments p.directory).drop 1 ++ [p.base]
    match parts.find? (contains f.token) with
    | some segment => .error (.reservedToken (f.put p) segment f.token)
    | none => .ok ⟨f.area, join f.token parts, p.extension⟩

def flatten (path : String) : Except FlattenProblem String := (f.forward (f.take path)).map f.put

def restore (path : String) : String :=
  let top := f.area ++ f.separator
  match after? top.toList path.toList with
  | none => path
  | some r => top ++ String.ofList (replaceAll f.token.toList f.separator.toList r)

end Flattening

end ChunkBuild.Source
