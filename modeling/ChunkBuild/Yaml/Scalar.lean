import ChunkBuild.Json.Printer
import ChunkBuild.Json.Value
import ChunkBuild.Number.Binary64
import ChunkBuild.Yaml.Moment
/-!
# Values of plain YAML texts

What a plain text stands for: a truth word, null, an integer in one of five notations, a float, a
date, or else the text itself. Quoted texts always stand for themselves.
-/
namespace ChunkBuild.Yaml

open ChunkBuild.Json ChunkBuild.Number ChunkBuild.Text

inductive Scalar where
  | value (v : Value)
  | moment (m : Moment)
  deriving Inhabited

namespace Scalar

/-- The value of a scalar. Of a moment only the kind is kept. -/
def toValue : Scalar → Value
  | .value v => v
  | .moment m => .calendar m.kind

def display : Scalar → String
  | .value v => v.display
  | .moment m => m.text

def isText : Scalar → Bool
  | .value (.str _) => true
  | _ => false

/-- Whether two scalars are the same key. As a key even what is no number is the same as itself. -/
def isSame : Scalar → Scalar → Bool
  | .value (.float .notANumber), .value (.float .notANumber) => true
  | .value v, .value w => v.isEqual w
  | .moment m, .moment n => m.isSame n
  | _, _ => false

end Scalar

/-! ## Words -/

def boolWord? (s : String) : Option Bool :=
  if ["yes", "Yes", "YES", "true", "True", "TRUE", "on", "On", "ON"].contains s then some true
  else if ["no", "No", "NO", "false", "False", "FALSE", "off", "Off", "OFF"].contains s then
    some false
  else none

def isNullWord (s : String) : Bool := ["~", "null", "Null", "NULL", ""].contains s

/-! ## Numbers -/

def isSpacedDigit (c : Char) : Bool := isAsciiDigit c || c == '_'

def digitsIn (cs : List Char) : List Nat :=
  (cs.filter isAsciiDigit).map fun c => c.toNat - 48

def powerNumber (base : Nat) (digit : Char → Nat) (cs : List Char) : Except ReadError Nat :=
  let ds := cs.filter (· ≠ '_')
  if ds.isEmpty then
    .error (.noSuchValue ("invalid literal for int() with base " ++ natText base ++ ": ''"))
  else .ok (ds.foldl (fun n c => base * n + digit c) 0)

def hexDigit (c : Char) : Nat :=
  let n := c.toNat
  if n ≤ 57 then n - 48 else if n ≤ 70 then n - 55 else n - 87

def isHexDigit (c : Char) : Bool :=
  isAsciiDigit c || ('a' ≤ c && c ≤ 'f') || ('A' ≤ c && c ≤ 'F')

def decimalNumber (cs : List Char) : Except ReadError Nat :=
  let ds := digitsIn cs
  if ds.length > digitLimit then .error (.noSuchValue (IntegerProblem.tooLong ds.length).message)
  else .ok (ofDigits ds)

/-- Parts in base sixty after colons, each of one or two digits below sixty, and what follows. -/
def sixtieths : (fuel : Nat) → List Char → List Nat × List Char
  | 0, cs => ([], cs)
  | fuel + 1, cs =>
    match cs with
    | ':' :: a :: b :: r =>
      if isAsciiDigit a && isAsciiDigit b && a < '6' then
        let (ps, rest) := sixtieths fuel r
        (ofDigits (digitsIn [a, b]) :: ps, rest)
      else if isAsciiDigit a && !isAsciiDigit b then
        let (ps, rest) := sixtieths fuel (b :: r)
        (ofDigits (digitsIn [a]) :: ps, rest)
      else ([], cs)
    | [':', a] => if isAsciiDigit a then ([ofDigits (digitsIn [a])], []) else ([], cs)
    | cs => ([], cs)

def exponent? : List Char → Option Int
  | [] => some 0
  | e :: sign :: ds =>
    if (e == 'e' || e == 'E') && (sign == '+' || sign == '-') && !ds.isEmpty &&
        ds.all isAsciiDigit then
      let n : Int := ofDigits (digitsIn ds)
      some (if sign == '-' then -n else n)
    else none
  | _ => none

def fractionNumber? (negative : Bool) (whole rest : List Char) : Option Binary64 :=
  let fraction := rest.takeWhile isSpacedDigit
  (exponent? (rest.dropWhile isSpacedDigit)).map fun e =>
    ofDecimal negative (ofDigits (digitsIn (whole ++ fraction))) (e - (digitsIn fraction).length)

/-- A number in base sixty: the parts before the last and the last with its fraction. Each part is
weighted and added by itself, beginning with the last; a weight that is beyond all floats is an
error. -/
def sixtyFloat (parts : List Nat) (last : Nat) (fraction : List Char) :
    Except ReadError Binary64 :=
  let ds := digitsIn fraction
  let start := ofDecimal false (last * Nat.pow 10 ds.length + ofDigits ds) (-(ds.length : Int))
  let added : Except ReadError (Binary64 × Nat) :=
    parts.reverse.foldlM (fun (sum, weight) part =>
      match ofQuotient false weight 1 with
      | .infinite _ => .error (.tooLarge "int too large to convert to float")
      | w => .ok (sum.plus ((ofQuotient false part 1).times w), weight * 60)) (start, 60)
  added.map (·.1)

def float? (cs : List Char) : Option (Except ReadError Binary64) :=
  let (negative, body) := readSign cs
  let signed := cs.length ≠ body.length
  match body with
  | '.' :: r =>
    let word := String.ofList r
    if ["inf", "Inf", "INF"].contains word then some (.ok (.infinite negative))
    else if signed then none
    else if ["nan", "NaN", "NAN"].contains word then some (.ok .notANumber)
    else if (r.head?.map isAsciiDigit).getD false then (fractionNumber? false [] r).map .ok
    else none
  | c :: _ =>
    if !isAsciiDigit c then none
    else
      let whole := body.takeWhile isSpacedDigit
      match body.dropWhile isSpacedDigit with
      | '.' :: r => (fractionNumber? negative whole r).map .ok
      | rest =>
        match sixtieths rest.length rest with
        | ([], _) => none
        | (p :: ps, '.' :: fraction) =>
          if fraction.all isSpacedDigit then
            let parts := ofDigits (digitsIn whole) :: (p :: ps).dropLast
            let x := sixtyFloat parts ((p :: ps).getLastD 0) fraction
            some (if negative then x.map Binary64.negated else x)
          else none
        | _ => none
  | [] => none

def magnitude? (cs : List Char) : Option (Except ReadError Nat) :=
  match cs with
  | ['0'] => some (.ok 0)
  | '0' :: 'b' :: r =>
    if !r.isEmpty && r.all (fun c => c == '0' || c == '1' || c == '_') then
      some (powerNumber 2 hexDigit r)
    else none
  | '0' :: 'x' :: r =>
    if !r.isEmpty && r.all (fun c => isHexDigit c || c == '_') then some (powerNumber 16 hexDigit r)
    else none
  | '0' :: r =>
    if r.all (fun c => ('0' ≤ c && c ≤ '7') || c == '_') then some (powerNumber 8 hexDigit cs)
    else none
  | c :: _ =>
    if !isAsciiDigit c then none
    else
      let whole := cs.takeWhile isSpacedDigit
      match sixtieths cs.length (cs.dropWhile isSpacedDigit) with
      | (ps, []) => some ((decimalNumber whole).map fun n => ps.foldl (fun m p => 60 * m + p) n)
      | _ => none
  | [] => none

def int? (cs : List Char) : Option (Except ReadError Int) :=
  let (negative, body) := readSign cs
  (magnitude? body).map fun r => r.map fun n => if negative then -(n : Int) else n

/-! ## Dates -/

def numberOf? (least most : Nat) (cs : List Char) : Option (Nat × List Char) :=
  let ds := (cs.take most).takeWhile isAsciiDigit
  if ds.length < least then none else some (ofDigits (digitsIn ds), cs.drop ds.length)

def sign? (c : Char) : List Char → Option (List Char)
  | x :: r => if x = c then some r else none
  | [] => none

def isLineBlank (c : Char) : Bool := c == ' ' || c == '\t'

/-- How far a place is ahead of universal time in minutes, written up to the end of a text; none
inside when nothing is written. -/
def distance? (cs : List Char) : Option (Option Int) :=
  match cs.dropWhile isLineBlank with
  | [] => if cs.isEmpty then some none else none
  | ['Z'] => some (some 0)
  | c :: r =>
    let signed (hours minutes : Nat) : Option (Option Int) :=
      let n : Int := hours * 60 + minutes
      if c = '+' then some (some n) else if c = '-' then some (some (-n)) else none
    match numberOf? 1 2 r with
    | none => none
    | some (hours, []) => signed hours 0
    | some (hours, r) => match (sign? ':' r).bind (numberOf? 2 2) with
      | some (minutes, []) => signed hours minutes
      | _ => none

/-- The millionths of a second that the digits after a point write; further digits are dropped. -/
def millionths (digits : List Char) : Nat :=
  let ds := digits.take 6
  ofDigits (digitsIn ds) * Nat.pow 10 (6 - ds.length)

def clock? (cs : List Char) : Option Clock := do
  let r ← match cs with
    | 'T' :: r | 't' :: r => some r
    | c :: _ => if isLineBlank c then some (cs.dropWhile isLineBlank) else none
    | [] => none
  let (hour, r) ← numberOf? 1 2 r
  let (minute, r) ← (sign? ':' r).bind (numberOf? 2 2)
  let (second, r) ← (sign? ':' r).bind (numberOf? 2 2)
  let (digits, r) := match r with
    | '.' :: r => (r.takeWhile isAsciiDigit, r.dropWhile isAsciiDigit)
    | r => ([], r)
  let ahead ← distance? r
  pure ⟨hour, minute, second, millionths digits, ahead⟩

def moment? (cs : List Char) : Option Moment := do
  let (year, r) ← numberOf? 4 4 cs
  let (month, r) ← (sign? '-' r).bind (numberOf? 1 2)
  let (day, r) ← (sign? '-' r).bind (numberOf? 1 2)
  if r.isEmpty then
    if cs.length = 10 then pure ⟨year, month, day, none⟩ else none
  else pure ⟨year, month, day, some (← clock? r)⟩

/-! ## All of them -/

def plainScalar (s : String) : Except ReadError Scalar :=
  let cs := s.toList
  match boolWord? s, float? cs, int? cs with
  | some b, _, _ => .ok (.value (.bool b))
  | none, some x, _ => x.map fun x => .value (.float x)
  | none, none, some n => n.map fun n => .value (.int n)
  | none, none, none =>
    if isNullWord s then .ok (.value .null)
    else if s = "<<" || s = "=" then malformed
    else match moment? cs with
      | some m => m.check.map .moment
      | none => .ok (.value (.str s))

end ChunkBuild.Yaml
