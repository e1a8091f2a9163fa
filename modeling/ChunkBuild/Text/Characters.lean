import ChunkBuild.Text.Half
import ChunkBuild.Text.IdentifierTable
import ChunkBuild.Text.UnprintableTable
/-!
# Classes of characters

Which characters stand in the names that a compiled program may bind, which are decimal digits of some
script, which are blank, and which have a printed form.
-/
namespace ChunkBuild.Text

/-- Whether a code point lies in the class with these ascending boundaries. -/
def inClass (bounds : List Nat) (n : Nat) : Bool :=
  (bounds.takeWhile (· ≤ n)).length % 2 == 1

/-! ## Names

The characters that may start a name also may continue one: that inclusion holds by definition. -/

def startsName (c : Char) : Bool := inClass nameStartBounds c.toNat

def continuesName (c : Char) : Bool := startsName c || inClass nameExtraBounds c.toNat

def isIdentifierChars : List Char → Bool
  | [] => false
  | c :: r => startsName c && r.all continuesName

def readDollar (c : Char) : Char := if c = '$' then '_' else c

def isBindingName (s : String) : Bool := isIdentifierChars (s.toList.map readDollar)

theorem continuesName_of_startsName {c : Char} (h : startsName c = true) :
    continuesName c = true := by simp [continuesName, h]

theorem isIdentifierChars_append {a b : List Char} (ha : isIdentifierChars a = true)
    (hb : b.all continuesName = true) : isIdentifierChars (a ++ b) = true := by
  cases a with
  | nil => simp [isIdentifierChars] at ha
  | cons c r =>
    simp only [isIdentifierChars, Bool.and_eq_true] at ha
    simp [isIdentifierChars, ha.1, List.all_append, ha.2, hb]

/-! ## Digits -/

/-- The zero of each script's ten decimal digits, ascending. -/
def digitZeros : List Nat :=
  [48, 1632, 1776, 1984, 2406, 2534, 2662, 2790, 2918, 3046, 3174, 3302, 3430, 3558, 3664, 3792,
   3872, 4160, 4240, 6112, 6160, 6470, 6608, 6784, 6800, 6992, 7088, 7232, 7248, 42528, 43216,
   43264, 43472, 43504, 43600, 44016, 65296, 66720, 68912, 69734, 69872, 69942, 70096, 70384,
   70736, 70864, 71248, 71360, 71472, 71904, 72016, 72784, 73040, 73120, 92768, 92864, 93008,
   120782, 120792, 120802, 120812, 120822, 123200, 123632, 125264, 130032]

def digitValue? (c : Char) : Option Nat :=
  (digitZeros.find? fun z => z ≤ c.toNat && c.toNat < z + 10).map (c.toNat - ·)

def isDigit (c : Char) : Bool := (digitValue? c).isSome

def isAsciiDigit (c : Char) : Bool := 48 ≤ c.toNat && c.toNat ≤ 57

def digitChar (d : Nat) : Char := Char.ofNat (48 + d)

/-! ## Blanks

Two classes are in use: the wide one for text a user wrote, and the narrower one around a written
number. -/

def isWideBlank (c : Char) : Bool :=
  let n := c.toNat
  n == 0x85 || n == 0xA0 || n == 0x1680 || (0x2000 ≤ n && n ≤ 0x200A) || n == 0x2028 ||
    n == 0x2029 || n == 0x202F || n == 0x205F || n == 0x3000

/-- Blank characters of a text: white space and the four ASCII separators before the space. -/
def isBlank (c : Char) : Bool :=
  (9 ≤ c.toNat && c.toNat ≤ 13) || (28 ≤ c.toNat && c.toNat ≤ 32) || isWideBlank c

/-- Blank characters allowed around a written number: the ASCII separators are not. -/
def isNumberBlank (c : Char) : Bool :=
  (9 ≤ c.toNat && c.toNat ≤ 13) || c.toNat == 32 || isWideBlank c

def trimBy (p : Char → Bool) (cs : List Char) : List Char :=
  ((cs.dropWhile p).reverse.dropWhile p).reverse

def trimEndBy (p : Char → Bool) (cs : List Char) : List Char :=
  (cs.reverse.dropWhile p).reverse

def trim (s : String) : String := String.ofList (trimBy isBlank s.toList)

def isBlankText (s : String) : Bool := s.toList.all isBlank

/-! ## Letter case

Upper and lower case as far as a comparison with ASCII words can see it: besides the ASCII letters
only the characters whose other case is written in ASCII letters. -/

def upperChar (c : Char) : List Char :=
  if c.isLower then [c.toUpper]
  else match c with
    | 'ß' => ['S', 'S']
    | 'ı' => ['I']
    | 'ſ' => ['S']
    | 'ﬀ' => ['F', 'F']
    | 'ﬁ' => ['F', 'I']
    | 'ﬂ' => ['F', 'L']
    | 'ﬃ' => ['F', 'F', 'I']
    | 'ﬄ' => ['F', 'F', 'L']
    | 'ﬅ' => ['S', 'T']
    | 'ﬆ' => ['S', 'T']
    | c => [c]

def upper (s : String) : String := String.ofList (s.toList.flatMap upperChar)

/-- The lower-case form of an ASCII letter or of the Kelvin sign; else the character. -/
def lowerChar (c : Char) : Char := if c = '\u212a' then 'k' else c.toLower

def lower (s : String) : String := String.ofList (s.toList.map lowerChar)

/-! ## Quoted texts

A text inside a message stands between single quotes, or between double quotes when it holds a
single quote and no double one. Backslashes, the quote in use and characters without a printed
form are escaped. -/

def hexDigit (d : Nat) : Char := if d < 10 then Char.ofNat (48 + d) else Char.ofNat (87 + d)

def hexText : (width n : Nat) → List Char
  | 0, _ => []
  | w + 1, n => hexText w (n / 16) ++ [hexDigit (n % 16)]

def isPrinted (n : Nat) : Bool := !inClass unprintableBounds n

def quotePoint (quote : Char) (n : Nat) : List Char :=
  if n = quote.toNat || n = 92 then ['\\', Char.ofNat n]
  else if n = 10 then ['\\', 'n']
  else if n = 13 then ['\\', 'r']
  else if n = 9 then ['\\', 't']
  else if isPrinted n then charsOf n
  else if n < 0x100 then '\\' :: 'x' :: hexText 2 n
  else if n < 0x10000 then '\\' :: 'u' :: hexText 4 n
  else '\\' :: 'U' :: hexText 8 n

def quoteFor (cs : List Char) : Char :=
  if cs.contains '\'' && !cs.contains '"' then '"' else '\''

def quoted (s : String) : String :=
  let q := quoteFor s.toList
  String.ofList (q :: (points s.toList).flatMap (quotePoint q) ++ [q])

end ChunkBuild.Text
