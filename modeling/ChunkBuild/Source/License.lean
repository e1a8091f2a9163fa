import ChunkBuild.Text.Characters
import ChunkBuild.Text.Pieces
/-!
# License blocks

Recognising the license comment of a permitted rights-holder and blanking it out. A removed block
leaves exactly the line breaks it held, so every remaining line keeps its number. Text that only
resembles a block stays.
-/
namespace ChunkBuild.Source

open ChunkBuild.Text

def defaultHolders : List String := ["Google LLC", "Massachusetts Institute of Technology"]

def lineBreak? : List Char → Option (List Char × List Char)
  | '\r' :: '\n' :: r => some (['\r', '\n'], r)
  | '\n' :: r => some (['\n'], r)
  | _ => none

def afterBreak? (s : List Char) : Option (List Char) := (lineBreak? s).map (·.2)

def lineBreaks : List Char → List Char
  | [] => []
  | '\r' :: '\n' :: r => '\r' :: '\n' :: lineBreaks r
  | c :: r => if c = '\n' then '\n' :: lineBreaks r else lineBreaks r

def afterLine? (line : String) (s : List Char) : Option (List Char) :=
  (after? line.toList s).bind afterBreak?

def afterTerms? (s : List Char) : Option (List Char) :=
  let s := (afterLine? " * All rights reserved." s).getD s
  (afterLine? " * SPDX-License-Identifier: Apache-2.0" s).bind (after? " */".toList)

structure Block where
  text : List Char
  copyright : List Char
  holder : List Char
  deriving DecidableEq, Repr

def year? (s : List Char) : Option (List Char × List Char) :=
  let digits := s.takeWhile isDigit
  if digits.isEmpty then none
  else (after? [' '] (s.dropWhile isDigit)).map fun r => (digits, r)

/-- The first holder that a text starts with so that the rest of a block follows. -/
def holder? (holders : List (List Char)) (s : List Char) : Option (List Char × List Char) :=
  holders.findSome? fun h =>
    ((after? h s).bind afterBreak?).bind fun r => (afterTerms? r).map fun rest => (h, rest)

def block? (holders : List (List Char)) (s : List Char) : Option Block :=
  ((afterLine? "/**" s).bind (afterLine? " * @license")).bind fun r =>
    (after? " * Copyright ".toList r).bind fun r =>
      (year? r).bind fun (digits, r) =>
        (holder? holders r).map fun (holder, rest) =>
          ⟨s.take (s.length - rest.length),
            "Copyright ".toList ++ digits ++ ' ' :: holder, holder⟩

inductive Piece where
  | kept (c : Char)
  | block (b : Block)
  deriving DecidableEq, Repr

def Piece.text : Piece → List Char
  | .kept c => [c]
  | .block b => b.text

def Piece.stripped : Piece → List Char
  | .kept c => [c]
  | .block b => lineBreaks b.text

def Piece.isBlock : Piece → Bool
  | .kept _ => false
  | .block _ => true

/-- The parts of a text, with `skip` characters of a block still to pass over. -/
def piecesFrom (holders : List (List Char)) : (skip : Nat) → List Char → List Piece
  | _, [] => []
  | skip + 1, _ :: r => piecesFrom holders skip r
  | 0, c :: r =>
    match block? holders (c :: r) with
    | some b => .block b :: piecesFrom holders (b.text.length - 1) r
    | none => .kept c :: piecesFrom holders 0 r

/-- Rights-holders as characters; no holder at all means the empty name. -/
def holderTexts (holders : List String) : List (List Char) :=
  if holders.isEmpty then [[]] else holders.map String.toList

def pieces (holders : List String) (s : String) : List Piece :=
  piecesFrom (holderTexts holders) 0 s.toList

def normalize (holders : List String) (s : String) : String × Nat :=
  let ps := pieces holders s
  (String.ofList (ps.flatMap Piece.stripped), ps.countP Piece.isBlock)

def lineCount (s : String) : Nat := count '\n' s + 1

/-- The blocks among parts with their start and end, counted in code points from `start` on. -/
def located (start : Nat) : List Piece → List (Nat × Nat × Block)
  | [] => []
  | .kept c :: r => located (start + size [c]) r
  | .block b :: r => (start, start + size b.text, b) :: located (start + size b.text) r

def blocks (holders : List String) (s : String) : List (Nat × Nat × Block) :=
  located 0 (pieces holders s)

end ChunkBuild.Source
