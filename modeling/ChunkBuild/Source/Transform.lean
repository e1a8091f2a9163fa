import ChunkBuild.Json.Value
import ChunkBuild.Source.Flatten
import ChunkBuild.Text.Characters
/-!
# Transforms of source paths

How the paths of sources are changed before compilation. A transform is made of loosely typed
settings; only one whose area, token and separator are texts changes anything.
-/
namespace ChunkBuild.Source

open ChunkBuild.Text ChunkBuild.Json

/-! ## Flattenings of other values

An area, a token and a separator that are not all texts make a flattening too. It keeps what it
need not change and fails where it would have to use a value as a text. -/

structure Irregular where
  area : Value
  token : Value
  separator : Value

def wordsOf (s : List Char) : List (List Char) :=
  (s.foldr (fun c done => if isBlank c then [] :: done else consFirst c done) [[]]).filter
    fun w => !w.isEmpty

namespace Irregular

variable (r : Irregular)

def noText : Failure := .badType "an area, a token and a separator have to be texts"

/-- The segments of a directory; without a separator blanks are between them. -/
def segments (directory : String) : Except Failure (List String) :=
  match r.separator with
  | .str s => if s.isEmpty then .error (.badValue "empty separator") else .ok (split s directory)
  | .null => .ok ((wordsOf directory.toList).map String.ofList)
  | _ => .error noText

def appliesTo (p : PathParts) : Except Failure Bool :=
  match r.segments p.directory with
  | .error e => .error e
  | .ok [] => .error .outOfRange
  | .ok (first :: _) => .ok (r.area.str? = some first)

def take (path : String) : Except Failure PathParts :=
  match r.separator with
  | .str s =>
    if s.isEmpty then .ok ⟨path, "", ""⟩
    else
      let f : Flattening := { separator := s }
      .ok (f.take path)
  | _ => .error noText

def put (p : PathParts) : String :=
  let f : Flattening := { separator := r.separator.display }
  f.put p

/-- Moves a path below the area, which fails: its segments cannot hold what is no text. -/
def forward (p : PathParts) : Except Failure PathParts :=
  match r.appliesTo p with
  | .error e => .error e
  | .ok true => .error noText
  | .ok false => .ok p

def flatten (path : String) : Except Failure String :=
  ((r.take path).bind r.forward).map r.put

def restore (path : String) : Except Failure String :=
  match r.area, r.separator with
  | .str area, .str separator =>
    if startsWith (area ++ separator) path then .error noText else .ok path
  | _, _ => .error noText

end Irregular

/-! ## Transforms -/

inductive PathTransform where
  | flattening (f : Flattening)
  | irregular (r : Irregular)

namespace PathTransform

/-- Whether a token holds the separator: as a part of a text, an item of a list or a key of an
object. -/
def holds (separator : Value) : (token : Value) → Except Failure Bool
  | .str token =>
    match separator with
    | .str s => .ok (contains s token)
    | _ => .error Irregular.noText
  | .arr items => .ok (items.any separator.isEqual)
  | .obj fields =>
    match separator with
    | .str s => .ok (Fields.has fields s)
    | .arr _ | .obj _ => .error (.badType ("unhashable type: '" ++ separator.kindName ++ "'"))
    | _ => .ok false
  | token => .error (.badType ("argument of type '" ++ token.kindName ++ "' is not iterable"))

def ofValues (area token separator : Value) : Except Failure PathTransform :=
  if !area.isGiven then .error (refusedArea area)
  else if !token.isGiven then .error (refusedToken token)
  else match holds separator token with
    | .error e => .error e
    | .ok true => .error (refusedToken token)
    | .ok false =>
      match area, token, separator with
      | .str a, .str t, .str s =>
        ((Flattening.make a t s).map .flattening).mapError FlattenProblem.failure
      | _, _, _ => .ok (.irregular ⟨area, token, separator⟩)

def take (path : String) : PathTransform → Except Failure PathParts
  | .flattening f => .ok (f.take path)
  | .irregular r => r.take path

def put (p : PathParts) : PathTransform → String
  | .flattening f => f.put p
  | .irregular r => r.put p

def appliesTo (p : PathParts) : PathTransform → Except Failure Bool
  | .flattening f => .ok (f.appliesTo p)
  | .irregular r => r.appliesTo p

def forward (p : PathParts) : PathTransform → Except Failure PathParts
  | .flattening f => (f.forward p).mapError FlattenProblem.failure
  | .irregular r => r.forward p

def flatten (path : String) : PathTransform → Except Failure String
  | .flattening f => (f.flatten path).mapError FlattenProblem.failure
  | .irregular r => r.flatten path

def restore (path : String) : PathTransform → Except Failure String
  | .flattening f => .ok (f.restore path)
  | .irregular r => r.restore path

end PathTransform

end ChunkBuild.Source
