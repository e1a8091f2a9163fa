import ChunkBuild.Json.Value
import ChunkBuild.Number.Shortest
import ChunkBuild.Text.Characters
/-!
# Writing JSON

Two layouts, on one line and indented by two spaces, both in ASCII: every other character is
written as an escape, in two halves beyond the first plane, and a half that stands alone by itself.
The two infinities and the value that is no number have words of their own.
-/
namespace ChunkBuild.Json

open ChunkBuild.Text ChunkBuild.Number

def unitEscape (n : Nat) : List Char := '\\' :: 'u' :: hexText 4 n

def escapePoint (n : Nat) : List Char :=
  if n = 34 then ['\\', '"']
  else if n = 92 then ['\\', '\\']
  else if n = 10 then ['\\', 'n']
  else if n = 13 then ['\\', 'r']
  else if n = 9 then ['\\', 't']
  else if n = 12 then ['\\', 'f']
  else if n = 8 then ['\\', 'b']
  else if 32 ≤ n && n ≤ 126 then [Char.ofNat n]
  else if n < 0x10000 then unitEscape n
  else
    unitEscape (0xD800 + (n - 0x10000) / 0x400) ++ unitEscape (0xDC00 + (n - 0x10000) % 0x400)

def stringText (s : String) : String :=
  String.ofList ('"' :: (points s.toList).flatMap escapePoint ++ ['"'])

def floatText : Binary64 → String
  | .notANumber => "NaN"
  | .infinite negative => if negative then "-Infinity" else "Infinity"
  | x => x.text

mutual

def Value.compact : Value → String
  | .null => "null"
  | .bool b => if b then "true" else "false"
  | .int n => intText n
  | .float x => floatText x
  | .str s => stringText s
  | .arr items => "[" ++ compactItems items ++ "]"
  | .obj fields => "\x7b" ++ compactFields fields ++ "\x7d"
  | .calendar kind => stringText kind

def compactItems : List Value → String
  | [] => ""
  | [v] => v.compact
  | v :: w :: r => v.compact ++ ", " ++ compactItems (w :: r)

def compactFields : List (String × Value) → String
  | [] => ""
  | [(k, v)] => stringText k ++ ": " ++ v.compact
  | (k, v) :: f :: r => stringText k ++ ": " ++ v.compact ++ ", " ++ compactFields (f :: r)

end

def indent (depth : Nat) : String := String.ofList ('\n' :: List.replicate (2 * depth) ' ')

mutual

def Value.indented (depth : Nat) : Value → String
  | .arr [] => "[]"
  | .obj [] => "\x7b\x7d"
  | .arr items => "[" ++ indentedItems (depth + 1) items ++ indent depth ++ "]"
  | .obj fields => "\x7b" ++ indentedFields (depth + 1) fields ++ indent depth ++ "\x7d"
  | .null => "null"
  | .bool b => if b then "true" else "false"
  | .int n => intText n
  | .float x => floatText x
  | .str s => stringText s
  | .calendar kind => stringText kind

def indentedItems (depth : Nat) : List Value → String
  | [] => ""
  | [v] => indent depth ++ v.indented depth
  | v :: w :: r => indent depth ++ v.indented depth ++ "," ++ indentedItems depth (w :: r)

def indentedFields (depth : Nat) : List (String × Value) → String
  | [] => ""
  | [(k, v)] => indent depth ++ stringText k ++ ": " ++ v.indented depth
  | (k, v) :: f :: r =>
    indent depth ++ stringText k ++ ": " ++ v.indented depth ++ "," ++ indentedFields depth (f :: r)

end

/-! ## Values inside messages

How a value reads in a message or on a command line: a text stands alone without quotes, and inside
a list or an object with them. -/

mutual

def Value.inner : Value → String
  | .null => "None"
  | .bool b => if b then "True" else "False"
  | .int n => intText n
  | .float x => x.text
  | .str s => quoted s
  | .arr items => "[" ++ innerItems items ++ "]"
  | .obj fields => "\x7b" ++ innerFields fields ++ "\x7d"
  | .calendar kind => kind

def innerItems : List Value → String
  | [] => ""
  | [v] => v.inner
  | v :: w :: r => v.inner ++ ", " ++ innerItems (w :: r)

def innerFields : List (String × Value) → String
  | [] => ""
  | [(k, v)] => quoted k ++ ": " ++ v.inner
  | (k, v) :: f :: r => quoted k ++ ": " ++ v.inner ++ ", " ++ innerFields (f :: r)

end

def Value.display : Value → String
  | .str s => s
  | v => v.inner

mutual

/-- Whether some integer in a value has too many digits to be written. -/
def Value.isUnprintable : Value → Bool
  | .int n => Nat.pow 10 digitLimit ≤ n.natAbs
  | .arr items => anyUnprintable items
  | .obj fields => anyFieldUnprintable fields
  | .null | .bool _ | .float _ | .str _ | .calendar _ => false

def anyUnprintable : List Value → Bool
  | [] => false
  | v :: r => v.isUnprintable || anyUnprintable r

def anyFieldUnprintable : List (String × Value) → Bool
  | [] => false
  | (_, v) :: r => v.isUnprintable || anyFieldUnprintable r

end

end ChunkBuild.Json
