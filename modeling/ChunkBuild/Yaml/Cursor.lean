import ChunkBuild.Text.Characters
import ChunkBuild.Text.Half
/-!
# A place in a YAML text

The characters that are left with their line, column and offset. Past the end the text reads as
NUL characters, which cannot stand in a YAML text themselves. Where a document is not read, a text that
breaks the grammar is told apart from one in which a number, a date or a character is written in due
form but does not exist.
-/
namespace ChunkBuild.Yaml

open ChunkBuild.Text

inductive ReadError where
  | malformed
  /-- There is no such number, date or character. -/
  | noSuchValue (message : String)
  | tooLarge (message : String)
  | tooDeep
  deriving DecidableEq, Repr

def tooDeepMessage : String := "maximum recursion depth exceeded"

def malformed {α : Type} : Except ReadError α := .error .malformed

structure Cursor where
  rest : List Char
  line : Nat := 0
  column : Nat := 0
  offset : Nat := 0

def isBreak (c : Char) : Bool :=
  c == '\n' || c == '\r' || c == '\u0085' || c == '\u2028' || c == '\u2029'

def isGap (c : Char) : Bool := c == ' ' || c == '\t' || c == '\x00' || isBreak c

def isLineEnd (c : Char) : Bool := c == '\x00' || isBreak c

def isAllowed (c : Char) : Bool :=
  let n := c.toNat
  n == 9 || n == 10 || n == 13 || (0x20 ≤ n && n ≤ 0x7E) || n == 0x85 ||
    (0xA0 ≤ n && n ≤ 0xD7FF) || (0xE000 ≤ n && n ≤ 0xFFFD) || 0x10000 ≤ n

namespace Cursor

def char (c : Cursor) : Char := c.rest.headD '\x00'

def charAt (c : Cursor) (n : Nat) : Char := (c.rest.drop n).headD '\x00'

/-- The next place. A byte order mark takes no column, and the second character of a pair, which
belongs to the code point of the first, no place at all. -/
def next (c : Cursor) : Cursor :=
  match c.rest with
  | [] => c
  | x :: r =>
    if isBreak x && !(x == '\r' && r.head? == some '\n') then
      { rest := r, line := c.line + 1, column := 0, offset := c.offset + 1 }
    else if isIndex x then { c with rest := r }
    else
      let width := if x == '\uFEFF' then 0 else 1
      { rest := r, line := c.line, column := c.column + width, offset := c.offset + 1 }

def advance (c : Cursor) : Nat → Cursor
  | 0 => c
  | n + 1 => c.next.advance n

def skipWhile (p : Char → Bool) (c : Cursor) : Cursor := c.advance (c.rest.takeWhile p).length

def takeWhile (p : Char → Bool) (c : Cursor) : List Char × Cursor :=
  (c.rest.takeWhile p, c.skipWhile p)

def lineBreak? (c : Cursor) : Option (Char × Cursor) :=
  match c.rest with
  | '\r' :: '\n' :: _ => some ('\n', c.advance 2)
  | x :: _ =>
    if x == '\u2028' || x == '\u2029' then some (x, c.next)
    else if isBreak x then some ('\n', c.next)
    else none
  | [] => none

def atSeparator (c : Cursor) : Bool :=
  (['-', '-', '-'].isPrefixOf c.rest || ['.', '.', '.'].isPrefixOf c.rest) && isGap (c.charAt 3)

def skipTo (limit : Nat) (c : Cursor) : Cursor :=
  c.advance (min (limit - c.column) (c.rest.takeWhile (· == ' ')).length)

end Cursor

end ChunkBuild.Yaml
