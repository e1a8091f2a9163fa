import ChunkBuild.Number.Binary64
import ChunkBuild.Text.Integer
/-!
# Shortest decimal text

The text of a double: the fewest digits that read back as the same number, the nearest such digits
when several do, in positional notation up to sixteen digits before the point and three zeros
after it, and with an exponent otherwise.
-/
namespace ChunkBuild.Number

open ChunkBuild.Text

/-- The number of digits before the point of a quotient; zeros after the point count negative. -/
def magnitude (num den : Nat) : Int :=
  if den ≤ num then (lowDigits (num / den + 1) (num / den)).length
  else match (List.range 400).find? fun j => den ≤ num * Nat.pow 10 (j + 1) with
    | some j => -(j : Int)
    | none => -400

/-- The natural numbers just below and above `num / den * 10 ^ (-scale)`, the nearer one first. -/
def neighbours (num den : Nat) (scale : Int) : List Nat :=
  let n := if scale < 0 then num * Nat.pow 10 (-scale).toNat else num
  let d := if scale < 0 then den else den * Nat.pow 10 scale.toNat
  let q := n / d
  if 2 * (n % d) < d || (2 * (n % d) == d && q % 2 == 0) then [q, q + 1] else [q + 1, q]

/-- Digits and scale of the shortest decimal that reads back as the number, looking at `fuel`
digit counts from `count` on. -/
def shortestFrom (m : Nat) (e : Int) (num den : Nat) (size : Int) :
    (fuel count : Nat) → Nat × Int
  | 0, _ => (num, 0)
  | fuel + 1, count =>
    let scale := size - count
    let near := neighbours num den scale
    match near.find? fun d => ofDecimal false d scale == .finite false m e with
    | some d => (d, scale)
    | none => shortestFrom m e num den size fuel (count + 1)

def dropZeros : (fuel : Nat) → Nat × Int → Nat × Int
  | 0, p => p
  | fuel + 1, (d, scale) => if d % 10 = 0 then dropZeros fuel (d / 10, scale + 1) else (d, scale)

def shortest (m : Nat) (e : Int) : Nat × Int :=
  let (num, den) := scaled m 1 (-e)
  dropZeros 20 (shortestFrom m e num den (magnitude num den) 17 1)

def exponentText (e : Int) : String :=
  let digits := natText e.natAbs
  "e" ++ (if e < 0 then "-" else "+") ++ (if digits.length < 2 then "0" ++ digits else digits)

def zeros (n : Nat) : String := String.ofList (List.replicate n '0')

def pointText (digits : List Char) (point : Int) : String :=
  if point ≤ -4 || 16 < point then
    String.ofList (digits.take 1) ++
      (if digits.length = 1 then "" else "." ++ String.ofList (digits.drop 1)) ++
      exponentText (point - 1)
  else if point ≤ 0 then "0." ++ zeros (-point).toNat ++ String.ofList digits
  else if digits.length ≤ point.toNat then
    String.ofList digits ++ zeros (point.toNat - digits.length) ++ ".0"
  else String.ofList (digits.take point.toNat) ++ "." ++ String.ofList (digits.drop point.toNat)

def Binary64.text : Binary64 → String
  | .notANumber => "nan"
  | .infinite negative => if negative then "-inf" else "inf"
  | .finite negative m e =>
    let sign := if negative then "-" else ""
    if m = 0 then sign ++ "0.0"
    else
      let (digits, scale) := shortest m e
      let cs := (natText digits).toList
      sign ++ pointText cs (cs.length + scale)

end ChunkBuild.Number
