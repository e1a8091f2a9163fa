import ChunkBuild.Failure
import ChunkBuild.Text.Utf8
/-!
# File trees

Files and directories by their place below the root, without links. Following a path looks at one
directory after the other, so a path through a file or a missing directory fails even when `..`
would lead out again.
-/
namespace ChunkBuild

open ChunkBuild.Text

abbrev Location := List String

inductive Entry where
  | file (content : Bytes)
  | directory
  deriving DecidableEq, Repr

def Entry.isDirectory : Entry → Bool
  | .file _ => false
  | .directory => true

/-- The entries below the root, which is itself a directory. -/
abbrev FileTree := List (Location × Entry)

namespace FileTree

def at? (t : FileTree) (loc : Location) : Option Entry :=
  if loc.isEmpty then some .directory else (t.find? (·.1 = loc)).map (·.2)

def put : FileTree → Location → Entry → FileTree
  | [], loc, e => [(loc, e)]
  | (l, old) :: r, loc, e => if l = loc then (l, e) :: r else (l, old) :: put r loc e

def remove (t : FileTree) (loc : Location) : FileTree := t.filter fun x => !loc.isPrefixOf x.1

def clear (t : FileTree) (loc : Location) : FileTree :=
  t.filter fun x => x.1 = loc || !loc.isPrefixOf x.1

def below (t : FileTree) (loc : Location) : FileTree :=
  t.filterMap fun x => if loc.isPrefixOf x.1 then some (x.1.drop loc.length, x.2) else none

def isEmptyAt (t : FileTree) (loc : Location) : Bool :=
  (t.below loc).all fun x => x.1.isEmpty

def graft (loc : Location) (t : FileTree) : FileTree := t.map fun x => (loc ++ x.1, x.2)

def move (t : FileTree) (source target : Location) : FileTree :=
  (t.remove source).remove target ++ graft target (t.below source)

def nameLimit : Nat := 255

/-- The place of a name in a directory, unless the name is too long. Names are kept as the system
gives them back. -/
def entered (here : Location) (name : String) : Except FileProblem Location :=
  if nameLimit < (systemBytes name).length then .error .nameTooLong
  else .ok (here ++ [systemText name])

/-- Follows names from a directory. Every name but the last has to lead to a directory; the last
may lead nowhere yet. -/
def walk (t : FileTree) (here : Location) : List String → Except FileProblem Location
  | [] => .ok here
  | [name] =>
    if name.isEmpty || name = "." then .ok here
    else if name = ".." then .ok here.dropLast
    else entered here name
  | name :: next :: r =>
    if name.isEmpty || name = "." then walk t here (next :: r)
    else if name = ".." then walk t here.dropLast (next :: r)
    else match entered here name with
      | .error e => .error e
      | .ok loc =>
        match t.at? loc with
        | none => .error .notFound
        | some (.file _) => .error .notDirectory
        | some .directory => walk t loc (next :: r)

def read (t : FileTree) (loc : Location) : Except FileProblem Bytes :=
  match t.at? loc with
  | none => .error .notFound
  | some .directory => .error .isDirectory
  | some (.file content) => .ok content

def write (t : FileTree) (loc : Location) (content : Bytes) : Except FileProblem FileTree :=
  match t.at? loc with
  | some .directory => .error .isDirectory
  | _ => .ok (t.put loc (.file content))

def makeDirectory (t : FileTree) (loc : Location) : Except FileProblem FileTree :=
  match t.at? loc with
  | some _ => .error .exists
  | none => .ok (t.put loc .directory)

def moveProblem? (t : FileTree) (source target : Location) : Option FileProblem :=
  match t.at? source, t.at? target with
  | none, _ => some .notFound
  | some _, none => if source.isPrefixOf target then some .invalid else none
  | some e, some old =>
    if source = target then none
    else if source.isPrefixOf target then some .invalid
    else if target.isPrefixOf source then some .notEmpty
    else match e, old with
      | .file _, .directory => some .isDirectory
      | .directory, .file _ => some .notDirectory
      | .file _, .file _ => none
      | .directory, .directory => if t.isEmptyAt target then none else some .notEmpty

def rename (t : FileTree) (source target : Location) : Except FileProblem FileTree :=
  match t.moveProblem? source target with
  | some p => .error p
  | none => .ok (if source = target then t else t.move source target)

end FileTree

end ChunkBuild
