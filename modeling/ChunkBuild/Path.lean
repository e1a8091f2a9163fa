import ChunkBuild.Text.Pieces
/-!
# Paths

File paths with `/` between their parts. A path keeps `..` as written; only `normalize` and
`resolve` take it away, by text alone. Two leading slashes are an anchor of their own, three or
more are one.
-/
namespace ChunkBuild

open ChunkBuild.Text

inductive Anchor where
  | relative
  | root
  | doubleRoot
  deriving DecidableEq, Repr, Inhabited

def Anchor.text : Anchor → String
  | .relative => ""
  | .root => "/"
  | .doubleRoot => "//"

/-- An anchor and the names after it, none of them empty or `.`. -/
structure Path where
  anchor : Anchor
  parts : List String
  deriving DecidableEq, Repr, Inhabited

def anchorOf (s : List Char) : Anchor :=
  match s with
  | '/' :: '/' :: '/' :: _ => .root
  | '/' :: '/' :: _ => .doubleRoot
  | '/' :: _ => .root
  | _ => .relative

/-- The pieces of a path's text between slashes, the empty ones and `.` left out. -/
def partsOf (s : List Char) : List String :=
  ((splitOn ['/'] s).filter fun p => p ≠ [] && p ≠ ['.']).map String.ofList

namespace Path

def ofText (s : String) : Path := ⟨anchorOf s.toList, partsOf s.toList⟩

def text (p : Path) : String :=
  let body := Text.join "/" p.parts
  if p.anchor = .relative && p.parts.isEmpty then "." else p.anchor.text ++ body

def isAbsolute (p : Path) : Bool := p.anchor ≠ .relative

def join (p q : Path) : Path := if q.isAbsolute then q else ⟨p.anchor, p.parts ++ q.parts⟩

def child (p : Path) (s : String) : Path := p.join (ofText s)

def name (p : Path) : String := p.parts.getLast?.getD ""

def parent (p : Path) : Path := ⟨p.anchor, p.parts.dropLast⟩

def withName (p : Path) (name : String) : Path := ⟨p.anchor, p.parts.dropLast ++ [name]⟩

/-- A name's extension with its dot; a dot that starts or ends the name begins none. -/
def suffix (p : Path) : String :=
  match cutLast ['.'] p.name.toList with
  | some (before, after) =>
    if before.isEmpty || after.isEmpty then "" else String.ofList ('.' :: after)
  | none => ""

def ancestors (p : Path) : List Path :=
  (List.range p.parts.length).reverse.map fun n => ⟨p.anchor, p.parts.take n⟩

end Path

/-- Takes `..` away from parts, `done` holding those before, the last first. Above an anchor it is
dropped, at the start of a relative path it stays. -/
def foldParts (anchored : Bool) : (done : List String) → List String → List String
  | done, [] => done.reverse
  | done, ".." :: r =>
    match done with
    | [] => if anchored then foldParts anchored [] r else foldParts anchored [".."] r
    | d :: ds =>
      if d = ".." then foldParts anchored (".." :: d :: ds) r else foldParts anchored ds r
  | done, p :: r => foldParts anchored (p :: done) r

namespace Path

def normalize (p : Path) : Path := ⟨p.anchor, foldParts p.isAbsolute [] p.parts⟩

def resolve (p cwd : Path) : Path := ⟨.root, foldParts true [] (cwd.join p).parts⟩

end Path

def normalizeText (s : String) : String := (Path.ofText s).normalize.text

end ChunkBuild
