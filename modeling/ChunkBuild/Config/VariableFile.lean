import ChunkBuild.Fields
import ChunkBuild.Text.Characters
import ChunkBuild.Text.Pieces
/-!
# Files of variables

A text that sets variables, one after the other, as `NAME=value`. A value may stand between quotes
and then go over several lines; it can use the variables before it. A number sign begins a comment.
What does not fit is passed over up to the end of its line.
-/
namespace ChunkBuild.Config

open ChunkBuild.Text

def isInlineBlank (c : Char) : Bool := isBlank c && c ≠ '\n' && c ≠ '\r'

/-- The text after an opening quote up to the closing one, and what follows. A character after a
backslash closes nothing. -/
def untilQuote (quote : Char) : List Char → Option (List Char × List Char)
  | [] => none
  | ['\\'] => none
  | '\\' :: c :: r => (untilQuote quote r).map fun (s, rest) => ('\\' :: c :: s, rest)
  | c :: r =>
    if c = quote then some ([], r)
    else (untilQuote quote r).map fun (s, rest) => (c :: s, rest)

/-- What a backslash and another character stand for; between single quotes only a backslash and a
single quote can follow. -/
def escapedChar? (quote c : Char) : Option Char :=
  if c = '\\' || c = '\'' then some c
  else if quote = '\'' then none
  else match c with
    | '"' => some '"'
    | 'a' => some '\x07'
    | 'b' => some '\x08'
    | 'f' => some '\x0c'
    | 'n' => some '\n'
    | 'r' => some '\r'
    | 't' => some '\t'
    | 'v' => some '\x0b'
    | _ => none

def withoutEscapes (quote : Char) : List Char → List Char
  | [] => []
  | '\\' :: c :: r =>
    match escapedChar? quote c with
    | some x => x :: withoutEscapes quote r
    | none => '\\' :: withoutEscapes quote (c :: r)
  | c :: r => c :: withoutEscapes quote r

/-- The part of a line before a number sign that follows a blank. -/
def beforeComment (afterBlank : Bool) : List Char → List Char
  | [] => []
  | c :: r => if afterBlank && c = '#' then [] else c :: beforeComment (isBlank c) r

/-- Where a text does not fit any more, or what was read of it with the rest. -/
abbrev LineScan (α : Type) := Except (List Char) (α × List Char)

def readName (s : List Char) : LineScan (Option (List Char)) :=
  match s with
  | '#' :: _ => .ok (none, s)
  | '\'' :: r =>
    match r.takeWhile (· ≠ '\''), r.dropWhile (· ≠ '\'') with
    | c :: cs, _ :: rest => .ok (some (c :: cs), rest)
    | _, _ => .error s
  | _ =>
    let name := s.takeWhile fun c => c ≠ '=' && c ≠ '#' && !isBlank c
    if name.isEmpty then .error s else .ok (some name, s.drop name.length)

def readAssigned (afterBlank : Bool) (s : List Char) : LineScan (List Char) :=
  let quoted (quote : Char) (r : List Char) : LineScan (List Char) :=
    match untilQuote quote r with
    | some (v, rest) => .ok (withoutEscapes quote v, rest)
    | none => .error s
  match s with
  | '\'' :: r => quoted '\'' r
  | '"' :: r => quoted '"' r
  | _ =>
    let line := s.takeWhile fun c => c ≠ '\n' && c ≠ '\r'
    .ok (trimEndBy isBlank (beforeComment afterBlank line), s.drop line.length)

def finishLine (s : List Char) : Except (List Char) (List Char) :=
  let t := s.dropWhile isInlineBlank
  let t := if t.head? = some '#' then t.dropWhile fun c => c ≠ '\n' && c ≠ '\r' else t
  match t with
  | [] => .ok []
  | '\r' :: '\n' :: r => .ok r
  | c :: r => if c = '\n' || c = '\r' then .ok r else .error s

def afterExport (s : List Char) : List Char :=
  match after? "export".toList s with
  | some (c :: r) => if isInlineBlank c then r.dropWhile isInlineBlank else s
  | _ => s

def readAssignment (s : List Char) : LineScan (Option (List Char) × Option (List Char)) :=
  (readName (afterExport s)).bind fun (name, r) =>
    let r := r.dropWhile isInlineBlank
    match r with
    | '=' :: r =>
      let afterBlank := (r.takeWhile isInlineBlank) ≠ []
      (readAssigned afterBlank (r.dropWhile isInlineBlank)).bind fun (v, r) =>
        (finishLine r).map fun rest => ((name, some v), rest)
    | _ => (finishLine r).map fun rest => ((name, none), rest)

/-- The names that a text sets, with their values. The number of characters is enough `fuel`. -/
def assignments : (fuel : Nat) → List Char → List (String × Option (List Char))
  | 0, _ => []
  | fuel + 1, s =>
    match s.dropWhile isBlank with
    | [] => []
    | s =>
      match readAssignment s with
      | .ok ((some name, v), rest) => (String.ofList name, v) :: assignments fuel rest
      | .ok ((none, _), rest) => assignments fuel rest
      | .error r => assignments fuel ((r.dropWhile fun c => c ≠ '\n' && c ≠ '\r').drop 1)

def reference? (s : List Char) : Option (List Char × List Char × List Char) :=
  let name := s.takeWhile fun c => c ≠ '\x7d' && c ≠ ':'
  match s.drop name.length with
  | ':' :: '-' :: r =>
    match r.dropWhile (· ≠ '\x7d') with
    | _ :: rest => some (name, r.takeWhile (· ≠ '\x7d'), rest)
    | [] => none
  | '\x7d' :: rest => some (name, [], rest)
  | _ => none

def withReferences (value? : String → Option String) : (fuel : Nat) → List Char → List Char
  | fuel + 1, '$' :: '\x7b' :: r =>
    match reference? r with
    | some (name, other, rest) =>
      (((value? (String.ofList name)).map String.toList).getD other) ++
        withReferences value? fuel rest
    | none => '$' :: withReferences value? fuel ('\x7b' :: r)
  | fuel + 1, c :: r => c :: withReferences value? fuel r
  | _, _ => []

/-- The variables that a text sets in an environment. A name can stand without a value; a reference
to such a name is empty, whatever the environment says. -/
def variablesOf (environment : Fields String) (text : String) : Fields (Option String) :=
  (assignments (text.length + 1) text.toList).foldl (fun found (name, v) =>
    let value? (name : String) : Option String :=
      match found.get? name with
      | some v => some (v.getD "")
      | none => environment.get? name
    found.put name (v.map fun v => String.ofList (withReferences value? v.length v))) []

end ChunkBuild.Config
