/-!
# Double precision numbers

Finite binary fractions with a 53-bit significand, the two infinities and the value that is no
number, and rounding of a non-negative rational to the nearest of them, ties to even.
-/
namespace ChunkBuild.Number

/-- A double precision number. A finite one is `significand * 2 ^ exponent` with its sign. -/
inductive Binary64 where
  | finite (negative : Bool) (significand : Nat) (exponent : Int)
  | infinite (negative : Bool)
  | notANumber
  deriving DecidableEq, Repr, Inhabited

def minExponent : Int := -1074

def significandBound : Nat := Nat.pow 2 53

/-- The value `num * 2 ^ (-e) / den` as a quotient of natural numbers. -/
def scaled (num den : Nat) (e : Int) : Nat × Nat :=
  if e < 0 then (num * Nat.pow 2 (-e).toNat, den) else (num, den * Nat.pow 2 e.toNat)

/-- The natural number nearest to a quotient, the even one of two. -/
def roundQuotient (num den : Nat) : Nat :=
  let q := num / den
  let r := num % den
  if 2 * r < den then q else if den < 2 * r then q + 1 else q + q % 2

/-- The exponent at which the quotient has 53 bits, or the least one. -/
def exponentOf (num den : Nat) : Int :=
  let guess : Int := (num.log2 : Int) - (den.log2 : Int) - 52
  let (n, d) := scaled num den guess
  let exact := if n < d * Nat.pow 2 52 then guess - 1 else guess
  if exact < minExponent then minExponent else exact

/-- The double nearest to `num / den`, ties to even, infinite beyond the range. -/
def ofQuotient (negative : Bool) (num den : Nat) : Binary64 :=
  if num = 0 then .finite negative 0 minExponent
  else
    let e := exponentOf num den
    let (n, d) := scaled num den e
    let m := roundQuotient n d
    let (m, e) := if m = significandBound then (m / 2, e + 1) else (m, e)
    if 971 < e then .infinite negative else .finite negative m e

/-- The double nearest to `digits * 10 ^ scale`. Scales that settle the answer are not raised to:
above 400 any digits overflow, and below, `digits * 8 ^ scale` is already an upper bound. -/
def ofDecimal (negative : Bool) (digits : Nat) (scale : Int) : Binary64 :=
  if digits = 0 then .finite negative 0 minExponent
  else if 400 < scale then .infinite negative
  else if 0 ≤ scale then ofQuotient negative (digits * Nat.pow 10 scale.toNat) 1
  else if (digits.log2 : Int) + 1 + 3 * scale < -1100 then .finite negative 0 minExponent
  else ofQuotient negative digits (Nat.pow 10 (-scale).toNat)

def Binary64.isZero : Binary64 → Bool
  | .finite _ m _ => m == 0
  | _ => false

def Binary64.toInt? : Binary64 → Option Int
  | .finite negative m e =>
    let sign : Int := if negative then -1 else 1
    if 0 ≤ e then some (sign * (m * Nat.pow 2 e.toNat : Nat))
    else if m % Nat.pow 2 (-e).toNat = 0 then some (sign * (m / Nat.pow 2 (-e).toNat : Nat))
    else none
  | _ => none

/-! ## Arithmetic

Sums and products are exact and then rounded once, for numbers that are not negative; what is too
large is infinite. Comparing with an integer is exact. -/

namespace Binary64

def times (x y : Binary64) : Binary64 :=
  match x, y with
  | .finite _ m e, .finite _ n f =>
    let (num, den) := scaled (m * n) 1 (-(e + f))
    ofQuotient false num den
  | _, _ => .infinite false

def plus (x y : Binary64) : Binary64 :=
  match x, y with
  | .finite _ m e, .finite _ n f =>
    let (a, b) := scaled m 1 (-e)
    let (c, d) := scaled n 1 (-f)
    ofQuotient false (a * d + c * b) (b * d)
  | _, _ => .infinite false

def isAbove (x : Binary64) (n : Int) : Bool :=
  match x with
  | .finite negative m e =>
    let (num, den) := scaled m 1 (-e)
    n * den < (if negative then -(num : Int) else num)
  | .infinite negative => !negative
  | .notANumber => false

def negated : Binary64 → Binary64
  | .finite s m e => .finite (!s) m e
  | .infinite s => .infinite (!s)
  | .notANumber => .notANumber

end Binary64

end ChunkBuild.Number
