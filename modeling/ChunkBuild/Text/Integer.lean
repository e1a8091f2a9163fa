import ChunkBuild.Text.Characters
/-!
# Written integers

Reading and writing integers in decimal. A written integer may stand between blanks, carry a
sign and have single underscores between its digits, which may be of any script. Neither
direction handles more than `digitLimit` digits.
-/
namespace ChunkBuild.Text

/-- The most digits that are read or written, leading zeros included. -/
def digitLimit : Nat := 4300

inductive IntegerProblem where
  | malformed (text : String)
  | tooLong (digits : Nat)
  | unprintable
  deriving DecidableEq, Repr

/-- The values of single digits with at most one underscore between neighbours. -/
def digitRun : List Char → Option (List Nat)
  | [] => none
  | [c] => (digitValue? c).map ([·])
  | c :: '_' :: r => (digitValue? c).bind fun d => (digitRun r).map (d :: ·)
  | c :: r => (digitValue? c).bind fun d => (digitRun r).map (d :: ·)

def ofDigits (ds : List Nat) : Nat := ds.foldl (fun n d => 10 * n + d) 0

def readSign : List Char → Bool × List Char
  | '-' :: r => (true, r)
  | '+' :: r => (false, r)
  | r => (false, r)

def readInteger (s : String) : Except IntegerProblem Int :=
  let (negative, body) := readSign (trimBy isNumberBlank s.toList)
  match digitRun body with
  | none => .error (.malformed s)
  | some ds =>
    if ds.length > digitLimit then .error (.tooLong ds.length)
    else .ok (if negative then -(ofDigits ds : Int) else ofDigits ds)

/-- The decimal digits of a number, the lowest first, for numbers below `10 ^ fuel`. -/
def lowDigits : Nat → Nat → List Nat
  | 0, _ => []
  | fuel + 1, n => if n < 10 then [n] else n % 10 :: lowDigits fuel (n / 10)

def natText (n : Nat) : String :=
  String.ofList ((lowDigits (n + 1) n).reverse.map digitChar)

def intText : Int → String
  | .ofNat n => natText n
  | .negSucc n => "-" ++ natText (n + 1)

def printInteger (n : Int) : Except IntegerProblem String :=
  if n.natAbs < Nat.pow 10 digitLimit then .ok (intText n) else .error .unprintable

def IntegerProblem.message : IntegerProblem → String
  | .malformed _ => "invalid literal for an integer"
  | .tooLong digits =>
    "Exceeds the limit (" ++ natText digitLimit
      ++ " digits) for integer string conversion: value has " ++ natText digits
      ++ " digits; use sys.set_int_max_str_digits() to increase the limit"
  | .unprintable =>
    "Exceeds the limit (" ++ natText digitLimit ++ " digits) for integer string conversion; "
      ++ "use sys.set_int_max_str_digits() to increase the limit"

end ChunkBuild.Text
