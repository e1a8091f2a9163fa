import ChunkBuild.Json.Value
import ChunkBuild.Text.Half
import ChunkBuild.Text.Integer
/-!
# Reading JSON

The value written by a text, or the first place where the text stops being JSON. A repeated key
keeps its first place and its last value. The words `NaN`, `Infinity` and `-Infinity` are read as
numbers. Integers are read only up to a number of digits, and values only up to a depth.
-/
namespace ChunkBuild.Json

open ChunkBuild.Text ChunkBuild.Number

inductive Problem where
  | byteOrderMark
  | value
  | name
  | colon
  | comma
  | extraData
  | openString
  | controlCharacter
  | badEscape
  | badUnicodeEscape
  deriving DecidableEq, Repr

def Problem.message : Problem → String
  | .byteOrderMark => "Unexpected UTF-8 BOM (decode using utf-8-sig)"
  | .value => "Expecting value"
  | .name => "Expecting property name enclosed in double quotes"
  | .colon => "Expecting ':' delimiter"
  | .comma => "Expecting ',' delimiter"
  | .extraData => "Extra data"
  | .openString => "Unterminated string starting at"
  | .controlCharacter => "Invalid control character at"
  | .badEscape => "Invalid \\escape"
  | .badUnicodeEscape => "Invalid \\uXXXX escape"

inductive Nesting where
  | list
  | object
  deriving DecidableEq, Repr

def Nesting.message : Nesting → String
  | .list => "maximum recursion depth exceeded while decoding a JSON array from a unicode string"
  | .object => "maximum recursion depth exceeded while decoding a JSON object from a unicode string"

/-- Why reading stopped: a problem with so many characters left, an integer out of bounds, or a
value that lies too deep in others. -/
inductive Stop where
  | malformed (problem : Problem) (left : Nat)
  | integer (problem : IntegerProblem)
  | tooDeep (kind : Nesting)
  deriving DecidableEq, Repr

abbrev Step (α : Type) := Except Stop (α × List Char)

def isSpace (c : Char) : Bool := c == ' ' || c == '\t' || c == '\n' || c == '\r'

def skipSpace (s : List Char) : List Char := s.dropWhile isSpace

def hexValue? (c : Char) : Option Nat :=
  let n := c.toNat
  if 48 ≤ n && n ≤ 57 then some (n - 48)
  else if 97 ≤ n && n ≤ 102 then some (n - 87)
  else if 65 ≤ n && n ≤ 70 then some (n - 55)
  else none

def hexUnit? (a b c d : Char) : Option Nat := do
  let a ← hexValue? a
  let b ← hexValue? b
  let c ← hexValue? c
  let d ← hexValue? d
  pure (((a * 16 + b) * 16 + c) * 16 + d)

def escapeValue? : Char → Option Char
  | '"' => some '"'
  | '\\' => some '\\'
  | '/' => some '/'
  | 'b' => some '\x08'
  | 'f' => some '\x0c'
  | 'n' => some '\n'
  | 'r' => some '\r'
  | 't' => some '\t'
  | _ => none

/-- What stands between quotes: characters, and escaped units of sixteen bits. -/
inductive QuotedUnit where
  | char (c : Char)
  | unit (n : Nat)
  deriving DecidableEq, Repr

/-- The characters of a quoted text. Two units are put together when they are the halves of one
character. -/
def joinUnits : List QuotedUnit → List Char
  | [] => []
  | .char c :: r => c :: joinUnits r
  | .unit a :: .unit b :: r =>
    match joined? a b with
    | some n => charsOf n ++ joinUnits r
    | none => charsOf a ++ joinUnits (.unit b :: r)
  | .unit a :: r => charsOf a ++ joinUnits r

/-- The units of a text after its opening quote. `start` is the number of characters left at that
quote. -/
def readUnits (start : Nat) : List Char → Step (List QuotedUnit)
  | [] => .error (.malformed .openString start)
  | '"' :: r => .ok ([], r)
  | ['\\'] => .error (.malformed .openString start)
  | '\\' :: 'u' :: a :: b :: c :: d :: r =>
    match hexUnit? a b c d, r.isEmpty with
    | some n, false => (readUnits start r).map fun (us, rest) => (.unit n :: us, rest)
    | _, _ => .error (.malformed .badUnicodeEscape (r.length + 5))
  | '\\' :: 'u' :: r => .error (.malformed .badUnicodeEscape (r.length + 1))
  | '\\' :: c :: r =>
    match escapeValue? c with
    | some x => (readUnits start r).map fun (us, rest) => (.char x :: us, rest)
    | none => .error (.malformed .badEscape (r.length + 2))
  | c :: r =>
    if c.toNat < 32 then .error (.malformed .controlCharacter (r.length + 1))
    else (readUnits start r).map fun (us, rest) => (.char c :: us, rest)

def readText (s : List Char) : Step String :=
  (readUnits (s.length + 1) s).map fun (us, rest) => (String.ofList (joinUnits us), rest)

def asciiValue (c : Char) : Nat := c.toNat - 48

def readFraction : List Char → Option (List Char × List Char)
  | '.' :: r =>
    if (r.takeWhile isAsciiDigit).isEmpty then none
    else some (r.takeWhile isAsciiDigit, r.dropWhile isAsciiDigit)
  | _ => none

def readExponent : List Char → Option (Int × List Char)
  | c :: r =>
    if c = 'e' || c = 'E' then
      let (negative, body) := readSign r
      let digits := body.takeWhile isAsciiDigit
      if digits.isEmpty then none
      else
        let n : Int := ofDigits (digits.map asciiValue)
        some (if negative then -n else n, body.dropWhile isAsciiDigit)
    else none
  | [] => none

def readWhole : List Char → Option (List Char × List Char)
  | '0' :: r => some (['0'], r)
  | c :: r =>
    if isAsciiDigit c then
      some ((c :: r).takeWhile isAsciiDigit, (c :: r).dropWhile isAsciiDigit)
    else none
  | [] => none

def readNumber (s : List Char) : Option (Except IntegerProblem Value × List Char) :=
  let (negative, body) := match s with
    | '-' :: r => (true, r)
    | r => (false, r)
  match readWhole body with
  | none => none
  | some (whole, r) =>
    let (fraction, r1) := (readFraction r).getD ([], r)
    let (exponent, r2) := match readExponent r1 with
      | some (e, r2) => (some e, r2)
      | none => (none, r1)
    if fraction.isEmpty && exponent.isNone then
      let n := ofDigits (whole.map asciiValue)
      if whole.length > digitLimit then some (.error (.tooLong whole.length), r2)
      else some (.ok (.int (if negative then -(n : Int) else n)), r2)
    else
      let digits := ofDigits ((whole ++ fraction).map asciiValue)
      some (.ok (.float (ofDecimal negative digits (exponent.getD 0 - fraction.length))), r2)

def readScalar (s : List Char) : Step Value :=
  match s with
  | 'n' :: 'u' :: 'l' :: 'l' :: r => .ok (.null, r)
  | 't' :: 'r' :: 'u' :: 'e' :: r => .ok (.bool true, r)
  | 'f' :: 'a' :: 'l' :: 's' :: 'e' :: r => .ok (.bool false, r)
  | 'N' :: 'a' :: 'N' :: r => .ok (.float .notANumber, r)
  | 'I' :: 'n' :: 'f' :: 'i' :: 'n' :: 'i' :: 't' :: 'y' :: r => .ok (.float (.infinite false), r)
  | '-' :: 'I' :: 'n' :: 'f' :: 'i' :: 'n' :: 'i' :: 't' :: 'y' :: r =>
    .ok (.float (.infinite true), r)
  | _ =>
    match readNumber s with
    | some (.ok v, r) => .ok (v, r)
    | some (.error p, _) => .error (.integer p)
    | none => .error (.malformed .value s.length)

mutual

/-- A value at the start of a text. Each value uses one unit of `fuel`; a text's own length is
enough. Lists and objects lie in one another up to a depth of `depth`. -/
def readValue : (fuel depth : Nat) → List Char → Step Value
  | 0, _, s => .error (.malformed .value s.length)
  | fuel + 1, depth, s =>
    match s, depth with
    | '"' :: r, _ => (readText r).map fun (t, rest) => (.str t, rest)
    | '[' :: _, 0 => .error (.tooDeep .list)
    | '[' :: r, depth + 1 =>
      match skipSpace r with
      | ']' :: rest => .ok (.arr [], rest)
      | rest => readItems fuel depth [] rest
    | '\x7b' :: _, 0 => .error (.tooDeep .object)
    | '\x7b' :: r, depth + 1 =>
      match skipSpace r with
      | '\x7d' :: rest => .ok (.obj [], rest)
      | rest => readMembers fuel depth [] rest
    | _, _ => readScalar s

/-- The items of a list that has begun; `done` holds those before, the last first. -/
def readItems : (fuel depth : Nat) → (done : List Value) → List Char → Step Value
  | 0, _, _, s => .error (.malformed .value s.length)
  | fuel + 1, depth, done, s =>
    match readValue fuel depth s with
    | .error e => .error e
    | .ok (v, r) =>
      match skipSpace r with
      | ']' :: rest => .ok (.arr (v :: done).reverse, rest)
      | ',' :: rest => readItems fuel depth (v :: done) (skipSpace rest)
      | rest => .error (.malformed .comma rest.length)

def readMembers : (fuel depth : Nat) → (done : Fields Value) → List Char → Step Value
  | 0, _, _, s => .error (.malformed .value s.length)
  | fuel + 1, depth, done, s =>
    match s with
    | '"' :: r =>
      match readText r with
      | .error e => .error e
      | .ok (key, r) =>
        match skipSpace r with
        | ':' :: r =>
          match readValue fuel depth (skipSpace r) with
          | .error e => .error e
          | .ok (v, r) =>
            match skipSpace r with
            | '\x7d' :: rest => .ok (.obj (done.put key v), rest)
            | ',' :: rest => readMembers fuel depth (done.put key v) (skipSpace rest)
            | rest => .error (.malformed .comma rest.length)
        | rest => .error (.malformed .colon rest.length)
    | _ => .error (.malformed .name s.length)

end

def depthLimit : Nat := 988

def readAll (s : List Char) : Except Stop Value :=
  match s with
  | '\ufeff' :: _ => .error (.malformed .byteOrderMark s.length)
  | _ =>
    match readValue (2 * s.length + 2) depthLimit (skipSpace s) with
    | .error e => .error e
    | .ok (v, r) =>
      match skipSpace r with
      | [] => .ok v
      | rest => .error (.malformed .extraData rest.length)

inductive ReadError where
  /-- The text is no JSON from a place on: line and column count from one, the offset from zero. -/
  | malformed (problem : Problem) (line column offset : Nat)
  | integer (problem : IntegerProblem)
  | tooDeep (kind : Nesting)
  deriving DecidableEq, Repr

def ReadError.message : ReadError → String
  | .malformed problem line column offset =>
    problem.message ++ ": line " ++ natText line ++ " column " ++ natText column ++ " (char "
      ++ natText offset ++ ")"
  | .integer problem => problem.message
  | .tooDeep kind => kind.message

def Stop.locate (s : List Char) : Stop → ReadError
  | .integer problem => .integer problem
  | .tooDeep kind => .tooDeep kind
  | .malformed problem left =>
    let before := s.take (s.length - left)
    .malformed problem (before.count '\n' + 1)
      (size (before.reverse.takeWhile (· ≠ '\n')) + 1) (size before)

def parse (s : String) : Except ReadError Value :=
  (readAll s.toList).mapError (Stop.locate s.toList)

end ChunkBuild.Json
