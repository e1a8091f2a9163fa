import ChunkBuild.Config.Misfit
import ChunkBuild.Json.Reader
import ChunkBuild.Text.Characters
import ChunkBuild.Text.Pieces
/-!
# Integers in the texts of settings

A text is read as an integer in its plain form first. Failing that, it is read once more without
the blanks around it, a plus sign, leading zeros, a fraction of zeros and single underscores.
-/
namespace ChunkBuild.Config

open ChunkBuild.Json ChunkBuild.Text

/-- An integer in its plain form: an optional minus, then a zero alone or digits that do not start
with one. Too many digits are noticed before anything that follows them. -/
def plainInteger (s : List Char) : Except Misfit Int :=
  let (negative, body) := match s with
    | '-' :: r => (true, r)
    | r => (false, r)
  match readWhole body with
  | none => .error .unreadableInteger
  | some (digits, rest) =>
    let n : Int := ofDigits (digits.map asciiValue)
    if digits.length > digitLimit then .error .oversizedInteger
    else if !rest.isEmpty then .error .unreadableInteger
    else .ok (if negative then -n else n)

/-- A text without the plus sign at its start; no minus may follow that. -/
def withoutPlus : List Char → Option (List Char)
  | '+' :: '-' :: _ => none
  | '+' :: r => some r
  | r => some r

/-- What remains after leading zeros, `last` being the one before: the text from the first other
digit or a minus on, or from the character before a point or the end on. -/
def afterZeros (last : Char) : List Char → Option (List Char)
  | [] => some [last]
  | c :: r =>
    if c = '0' || c = '_' then afterZeros c r
    else if c = '-' || isAsciiDigit c then some (c :: r)
    else if c = '.' then some (last :: c :: r)
    else none

def withoutZeros : List Char → Option (List Char)
  | [] => none
  | c :: r =>
    if c = '0' then afterZeros c r
    else if isAsciiDigit c then some (c :: r)
    else none

def withoutLeadingZeros : List Char → Option (List Char)
  | '-' :: r => (withoutZeros r).map ('-' :: ·)
  | r => withoutZeros r

def withoutZeroFraction (s : List Char) : List Char :=
  match s.dropWhile (· ≠ '.') with
  | '.' :: fraction =>
    if !fraction.isEmpty && fraction.all (· == '0') then s.takeWhile (· ≠ '.') else s
  | _ => s

/-- A text without its underscores when each of them stands between two other characters. -/
def withoutUnderscores (s : List Char) : List Char :=
  if s.head? = some '_' || s.getLast? = some '_' || occursIn ['_', '_'] s then s
  else s.filter (· ≠ '_')

def cleaned (s : List Char) : Option (List Char) :=
  ((withoutPlus (trimBy isNumberBlank s)).bind withoutLeadingZeros).map fun s =>
    withoutUnderscores (withoutZeroFraction s)

def integerOf (s : String) : Except Misfit Int :=
  match plainInteger s.toList with
  | .error .unreadableInteger =>
    match (cleaned s.toList).map plainInteger with
    | some (.ok n) => .ok n
    | _ => .error .unreadableInteger
  | r => r

end ChunkBuild.Config
