import ChunkBuild.Text.Characters
import ChunkBuild.Text.Pieces
import ChunkBuild.Text.Utf8
/-!
# Encodings

The encodings of text files, the names by which they are known, and reading bytes in each. Case and
signs do not matter in a name, which has several spellings.
-/
namespace ChunkBuild.Text

inductive Encoding where
  | utf8
  /-- UTF-8 behind a byte order mark, which may be missing. -/
  | markedUtf8
  | ascii
  | latin1
  | windows1252
  | utf16
  | utf16LittleEndian
  | utf16BigEndian
  | utf32
  | utf32LittleEndian
  | utf32BigEndian
  deriving DecidableEq, Repr

namespace Encoding

def spellings : List (Encoding × List String) :=
  [(utf8, ["utf_8", "utf8", "u8", "utf", "utf8_ucs2", "utf8_ucs4", "cp65001"]),
    (markedUtf8, ["utf_8_sig"]),
    (ascii, ["ascii", "us_ascii", "us", "646", "iso646_us", "iso_ir_6", "ansi_x3.4_1968",
      "ansi_x3_4_1968", "ansi_x3.4_1986", "iso_646.irv_1991", "cp367", "ibm367", "csascii"]),
    (latin1, ["latin_1", "latin1", "latin", "l1", "iso_8859_1", "iso8859_1", "iso8859", "8859",
      "iso_8859_1_1987", "iso_ir_100", "cp819", "ibm819", "csisolatin1"]),
    (windows1252, ["cp1252", "1252", "windows_1252"]),
    (utf16, ["utf_16", "utf16", "u16"]),
    (utf16LittleEndian, ["utf_16_le", "utf_16le", "unicodelittleunmarked"]),
    (utf16BigEndian, ["utf_16_be", "utf_16be", "unicodebigunmarked"]),
    (utf32, ["utf_32", "utf32", "u32"]),
    (utf32LittleEndian, ["utf_32_le", "utf_32le"]),
    (utf32BigEndian, ["utf_32_be", "utf_32be"])]

/-- Whether a character of an encoding's name counts; all others only separate. -/
def isNamePart (c : Char) : Bool := c.isAlphanum || c = '.'

def nameParts (s : List Char) : List (List Char) :=
  (s.foldr (fun c done => if isNamePart c then consFirst c done else [] :: done) [[]]).filter
    fun w => !w.isEmpty

def ofName? (name : String) : Option Encoding :=
  let spelling := join "_" ((nameParts (lower name).toList).map String.ofList)
  (spellings.find? fun e => e.2.contains spelling).map (·.1)

end Encoding

inductive EncodingProblem where
  | undecodable (message : String)
  /-- The bytes do not say in which order those of a unit of so many bits are. -/
  | unmarked (bits : Nat)
  deriving DecidableEq, Repr

def EncodingProblem.message : EncodingProblem → String
  | .undecodable message => message
  | .unmarked bits => "UTF-" ++ natText bits ++ " stream does not start with BOM"

def asciiPoints (pos : Nat) : Bytes → Except EncodingProblem (List Nat)
  | [] => .ok []
  | b :: r =>
    if b < 0x80 then (asciiPoints (pos + 1) r).map (b.toNat :: ·)
    else .error (.undecodable (undecodable "ascii" b pos pos "ordinal not in range(128)"))

/-- The characters of the bytes from 0x80 to 0x9F in Windows-1252, zero where there is none. -/
def windowsPoints : List Nat :=
  [0x20AC, 0, 0x201A, 0x192, 0x201E, 0x2026, 0x2020, 0x2021, 0x2C6, 0x2030, 0x160, 0x2039, 0x152,
   0, 0x17D, 0, 0, 0x2018, 0x2019, 0x201C, 0x201D, 0x2022, 0x2013, 0x2014, 0x2DC, 0x2122, 0x161,
   0x203A, 0x153, 0, 0x17E, 0x178]

def windowsFrom (pos : Nat) : Bytes → Except EncodingProblem (List Nat)
  | [] => .ok []
  | b :: r =>
    let n := if b < 0x80 || 0xA0 ≤ b then b.toNat else (windowsPoints[b.toNat - 0x80]?).getD 0
    if n = 0 && b ≠ 0 then
      .error (.undecodable (undecodable "charmap" b pos pos "character maps to <undefined>"))
    else (windowsFrom (pos + 1) r).map (n :: ·)

inductive ByteOrder where
  | little
  | big
  deriving DecidableEq, Repr

namespace ByteOrder

def encodingName (o : ByteOrder) (bits : Nat) : String :=
  "utf-" ++ natText bits ++ match o with
    | .little => "-le"
    | .big => "-be"

def unit (o : ByteOrder) (a b : UInt8) : Nat :=
  match o with
  | .little => b.toNat * 256 + a.toNat
  | .big => a.toNat * 256 + b.toNat

def points (o : ByteOrder) (pos : Nat) : Bytes → Except EncodingProblem (List Nat)
  | [] => .ok []
  | [b] => .error (.undecodable (undecodable (o.encodingName 16) b pos pos "truncated data"))
  | a :: b :: r =>
    let n := o.unit a b
    let bad (last : Nat) (reason : String) : Except EncodingProblem (List Nat) :=
      .error (.undecodable (undecodable (o.encodingName 16) a pos last reason))
    if !isHalf n then (o.points (pos + 2) r).map (n :: ·)
    else if 0xDC00 ≤ n then bad (pos + 1) "illegal encoding"
    else match r with
      | c :: d :: r =>
        match joined? n (o.unit c d) with
        | some m => (o.points (pos + 4) r).map (m :: ·)
        | none => bad (pos + 1) "illegal UTF-16 surrogate"
      | r => bad (pos + 1 + r.length) "unexpected end of data"

def widePoints (o : ByteOrder) (pos : Nat) : Bytes → Except EncodingProblem (List Nat)
  | a :: b :: c :: d :: r =>
    let n := match o with
      | .little => o.unit c d * 65536 + o.unit a b
      | .big => o.unit a b * 65536 + o.unit c d
    let bad (reason : String) : Except EncodingProblem (List Nat) :=
      .error (.undecodable (undecodable (o.encodingName 32) a pos (pos + 3) reason))
    if isHalf n then bad "code point in surrogate code point range(0xd800, 0xe000)"
    else if 0x110000 ≤ n then bad "code point not in range(0x110000)"
    else (o.widePoints (pos + 4) r).map (n :: ·)
  | [] => .ok []
  | a :: r =>
    .error (.undecodable
      (undecodable (o.encodingName 32) a pos (pos + r.length) "truncated data"))

end ByteOrder

/-- The code points of UTF-16 bytes that start with a byte order mark. Without one the bytes have to
be right in the one order all the same. -/
def markedUtf16Points : Bytes → Except EncodingProblem (List Nat)
  | 0xFF :: 0xFE :: r => ByteOrder.little.points 2 r
  | 0xFE :: 0xFF :: r => ByteOrder.big.points 2 r
  | bytes =>
    (ByteOrder.little.points 0 bytes).bind fun ns =>
      if ns.isEmpty then .ok [] else .error (.unmarked 16)

def markedUtf32Points : Bytes → Except EncodingProblem (List Nat)
  | 0xFF :: 0xFE :: 0 :: 0 :: r => ByteOrder.little.widePoints 4 r
  | 0 :: 0 :: 0xFE :: 0xFF :: r => ByteOrder.big.widePoints 4 r
  | bytes =>
    (ByteOrder.little.widePoints 0 bytes).bind fun ns =>
      if ns.isEmpty then .ok [] else .error (.unmarked 32)

def utf8Text (bytes : Bytes) : Except EncodingProblem String :=
  (decodeUtf8 bytes).mapError fun p => .undecodable p.message

def textOfPoints (ns : Except EncodingProblem (List Nat)) : Except EncodingProblem String :=
  ns.map fun ns => String.ofList (ofPoints ns)

def Encoding.decode (bytes : Bytes) : Encoding → Except EncodingProblem String
  | .utf8 => utf8Text bytes
  | .markedUtf8 =>
    match bytes with
    | 0xEF :: 0xBB :: 0xBF :: r => utf8Text r
    | bytes => utf8Text bytes
  | .ascii => textOfPoints (asciiPoints 0 bytes)
  | .latin1 => textOfPoints (.ok (bytes.map UInt8.toNat))
  | .windows1252 => textOfPoints (windowsFrom 0 bytes)
  | .utf16 => textOfPoints (markedUtf16Points bytes)
  | .utf16LittleEndian => textOfPoints (ByteOrder.little.points 0 bytes)
  | .utf16BigEndian => textOfPoints (ByteOrder.big.points 0 bytes)
  | .utf32 => textOfPoints (markedUtf32Points bytes)
  | .utf32LittleEndian => textOfPoints (ByteOrder.little.widePoints 0 bytes)
  | .utf32BigEndian => textOfPoints (ByteOrder.big.widePoints 0 bytes)

end ChunkBuild.Text
