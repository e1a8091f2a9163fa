import ChunkBuild.Text.Characters
import ChunkBuild.Text.Integer
/-!
# UTF-8

Bytes of a text and the text of bytes. Decoding stops at the first byte that cannot be part of a
character there, and says where and why.
-/
namespace ChunkBuild.Text

abbrev Bytes := List UInt8

def pointBytes (n : Nat) : Bytes :=
  let tail (weight : Nat) : UInt8 := (0x80 + n / weight % 0x40).toUInt8
  if n < 0x80 then [n.toUInt8]
  else if n < 0x800 then [(0xC0 + n / 0x40).toUInt8, tail 1]
  else if n < 0x10000 then [(0xE0 + n / 0x1000).toUInt8, tail 0x40, tail 1]
  else [(0xF0 + n / 0x40000).toUInt8, tail 0x1000, tail 0x40, tail 1]

def encodeUtf8 (s : String) : Bytes := (points s.toList).flatMap pointBytes

inductive Utf8Reason where
  | badStart
  | badContinuation
  | truncated
  deriving DecidableEq, Repr

structure Utf8Problem where
  byte : UInt8
  first : Nat
  last : Nat
  reason : Utf8Reason
  deriving DecidableEq, Repr

def Utf8Reason.message : Utf8Reason → String
  | .badStart => "invalid start byte"
  | .badContinuation => "invalid continuation byte"
  | .truncated => "unexpected end of data"

/-- The wording of bytes that an encoding cannot read: the first one's value, the first and the last
position and the reason. -/
def undecodable (encoding : String) (byte : UInt8) (first last : Nat) (reason : String) : String :=
  "'" ++ encoding ++ "' codec can't decode " ++
    (if first = last then
      "byte 0x" ++ String.ofList (hexText 2 byte.toNat) ++ " in position " ++ natText first
    else "bytes in position " ++ natText first ++ "-" ++ natText last) ++
    ": " ++ reason

def Utf8Problem.message (p : Utf8Problem) : String :=
  undecodable "utf-8" p.byte p.first p.last p.reason.message

structure HalfProblem where
  half : Nat
  first : Nat
  last : Nat
  deriving DecidableEq, Repr

def HalfProblem.message (p : HalfProblem) : String :=
  "'utf-8' codec can't encode " ++
    (if p.first = p.last then
      "character '\\u" ++ String.ofList (hexText 4 p.half) ++ "' in position " ++ natText p.first
    else "characters in position " ++ natText p.first ++ "-" ++ natText p.last) ++
    ": surrogates not allowed"

/-- The first problem with halves from position `pos` on. Halves that stand for bytes are none when
`bytes` is set. -/
def halfProblemFrom? (bytes : Bool) (pos : Nat) : List Nat → Option HalfProblem
  | [] => none
  | n :: r =>
    if isHalf n && !(bytes && isByteHalf n) then
      some ⟨n, pos, pos + (r.takeWhile isHalf).length⟩
    else halfProblemFrom? bytes (pos + 1) r

/-- How many bytes follow a first byte, the bounds of the next one, and the bits it gives. -/
def leadingByte (b : UInt8) : Option (Nat × UInt8 × UInt8 × Nat) :=
  if b < 0x80 then some (0, 0, 0, b.toNat)
  else if b < 0xC2 then none
  else if b < 0xE0 then some (1, 0x80, 0xBF, b.toNat - 0xC0)
  else if b = 0xE0 then some (2, 0xA0, 0xBF, 0)
  else if b = 0xED then some (2, 0x80, 0x9F, 0xD)
  else if b < 0xF0 then some (2, 0x80, 0xBF, b.toNat - 0xE0)
  else if b = 0xF0 then some (3, 0x90, 0xBF, 0)
  else if b < 0xF4 then some (3, 0x80, 0xBF, b.toNat - 0xF0)
  else if b = 0xF4 then some (3, 0x80, 0x8F, 4)
  else none

/-- A character whose reading has begun: its first byte, how many bytes of it are read and how many
are missing, the bounds of the next one and the bits so far. -/
structure Pending where
  start : UInt8
  taken : Nat
  missing : Nat
  low : UInt8
  high : UInt8
  bits : Nat

/-- Decodes from position `pos` on, in the middle of a character when one is pending. -/
def decodeFrom (pos : Nat) : Option Pending → Bytes → Except Utf8Problem (List Char)
  | none, [] => .ok []
  | some p, [] => .error ⟨p.start, pos - p.taken, pos - 1, .truncated⟩
  | none, b :: r =>
    match leadingByte b with
    | none => .error ⟨b, pos, pos, .badStart⟩
    | some (0, _, _, bits) => (decodeFrom (pos + 1) none r).map (charsOf bits ++ ·)
    | some (n + 1, low, high, bits) => decodeFrom (pos + 1) (some ⟨b, 1, n + 1, low, high, bits⟩) r
  | some p, b :: r =>
    if p.low ≤ b && b ≤ p.high then
      let bits := p.bits * 64 + (b.toNat - 0x80)
      if p.missing ≤ 1 then (decodeFrom (pos + 1) none r).map (charsOf bits ++ ·)
      else decodeFrom (pos + 1) (some ⟨p.start, p.taken + 1, p.missing - 1, 0x80, 0xBF, bits⟩) r
    else .error ⟨p.start, pos - p.taken, pos - 1, .badContinuation⟩

def decodeUtf8 (bytes : Bytes) : Except Utf8Problem String :=
  (decodeFrom 0 none bytes).map String.ofList

/-- The text of bytes that are decoded piece by piece: an unfinished character at the end is
counted from its own first byte. -/
def decodeUtf8Stream (bytes : Bytes) : Except Utf8Problem String :=
  match decodeUtf8 bytes with
  | .error ⟨b, first, last, .truncated⟩ => .error ⟨b, 0, last - first, .truncated⟩
  | r => r

def unifyLineEnds : List Char → List Char
  | [] => []
  | '\r' :: '\n' :: r => '\n' :: unifyLineEnds r
  | '\r' :: r => '\n' :: unifyLineEnds r
  | c :: r => c :: unifyLineEnds r

/-! ## Texts of the system

To the system the names of files and the variables of the environment are bytes. A byte that is
part of no character is written as a half of a character, from U+DC80 to U+DCFF, so all bytes have a
text. Halves that write the bytes of a character together are read back as that character. -/

def systemPointBytes (n : Nat) : Bytes :=
  if isByteHalf n then [(n - 0xDC00).toUInt8] else pointBytes n

def systemBytes (s : String) : Bytes := (points s.toList).flatMap systemPointBytes

/-- The code point whose first byte has been read, `missing` more bytes being expected. -/
def pointAfter? : (missing : Nat) → (low high : UInt8) → (bits : Nat) → Bytes → Option Nat
  | 0, _, _, bits, _ => some bits
  | _ + 1, _, _, _, [] => none
  | missing + 1, low, high, bits, b :: r =>
    if low ≤ b && b ≤ high then
      pointAfter? missing 0x80 0xBF (bits * 64 + (b.toNat - 0x80)) r
    else none

/-- The code points of bytes, with `skip` bytes of one still to pass over. -/
def systemPoints : (skip : Nat) → Bytes → List Nat
  | _, [] => []
  | skip + 1, _ :: r => systemPoints skip r
  | 0, b :: r =>
    let found := (leadingByte b).bind fun (missing, low, high, bits) =>
      (pointAfter? missing low high bits r).map fun n => (n, missing)
    match found with
    | some (n, missing) => n :: systemPoints missing r
    | none => (0xDC00 + b.toNat) :: systemPoints 0 r

/-- The text that the system gives back for a text. -/
def systemText (s : String) : String :=
  if hasHalf s then String.ofList (ofPoints (systemPoints 0 (systemBytes s))) else s

def systemProblem? (s : String) : Option HalfProblem :=
  halfProblemFrom? true 0 (points s.toList)

end ChunkBuild.Text
