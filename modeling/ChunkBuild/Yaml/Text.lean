import ChunkBuild.Json.Reader
import ChunkBuild.Yaml.Cursor
/-!
# Scalar texts in YAML

Reading quoted texts, blocks and plain texts. A single line end inside them is read as a space and
further ones as themselves. `fuel` bounds the number of steps; the number of characters left is
enough.
-/
namespace ChunkBuild.Yaml

open ChunkBuild.Text

abbrev Scan := Except ReadError (List Char × Cursor)

/-! ## Quoted texts -/

def quotedBreaks : (fuel : Nat) → Cursor → Scan
  | 0, _ => malformed
  | fuel + 1, c =>
    if c.atSeparator then malformed
    else
      let c := c.skipWhile fun x => x == ' ' || x == '\t'
      match c.lineBreak? with
      | some (b, c) => (quotedBreaks fuel c).map fun (bs, c) => (b :: bs, c)
      | none => .ok ([], c)

def fold (lineBreak : Char) (breaks : List Char) : List Char :=
  (if lineBreak ≠ '\n' then [lineBreak] else if breaks.isEmpty then [' '] else []) ++ breaks

def quotedSpaces (c : Cursor) : Scan :=
  let (spaces, c) := c.takeWhile fun x => x == ' ' || x == '\t'
  match c.lineBreak? with
  | some (b, c) => (quotedBreaks (c.rest.length + 1) c).map fun (bs, c) => (fold b bs, c)
  | none => if c.char == '\x00' then malformed else .ok (spaces, c)

def shortEscape? : Char → Option Char
  | '0' => some '\x00'
  | 'a' => some '\x07'
  | 'b' => some '\x08'
  | 't' | '\t' => some '\t'
  | 'n' => some '\n'
  | 'v' => some '\x0b'
  | 'f' => some '\x0c'
  | 'r' => some '\r'
  | 'e' => some '\x1b'
  | ' ' => some ' '
  | '"' => some '"'
  | '\\' => some '\\'
  | '/' => some '/'
  | 'N' => some '\u0085'
  | '_' => some '\u00a0'
  | 'L' => some '\u2028'
  | 'P' => some '\u2029'
  | _ => none

def escapeWidth? : Char → Option Nat
  | 'x' => some 2
  | 'u' => some 4
  | 'U' => some 8
  | _ => none

def hexNumber? (ds : List Char) : Option Nat :=
  ds.foldlM (fun n d => (Json.hexValue? d).map fun v => 16 * n + v) 0

def numbered (n : Nat) : Except ReadError (List Char) :=
  if n < 0x110000 then .ok (charsOf n)
  else if n < 0x80000000 then .error (.noSuchValue "chr() arg not in range(0x110000)")
  else .error (.tooLarge "Python int too large to convert to C int")

def escape (c : Cursor) : Scan :=
  let x := c.char
  match shortEscape? x, escapeWidth? x with
  | some e, _ => .ok ([e], c.next)
  | none, some width =>
    let digits := c.next.rest.take width
    if digits.length < width then malformed
    else match hexNumber? digits with
      | some n => (numbered n).map fun xs => (xs, c.next.advance width)
      | none => malformed
  | none, none =>
    match c.lineBreak? with
    | some (_, c) => quotedBreaks (c.rest.length + 1) c
    | none => malformed

def quotedWord (double : Bool) : (fuel : Nat) → Cursor → Scan
  | 0, _ => malformed
  | fuel + 1, c =>
    let go (done : List Char) (c : Cursor) : Scan :=
      (quotedWord double fuel c).map fun (s, c) => (done ++ s, c)
    let x := c.char
    if x == '\'' then
      if double then go [x] c.next
      else if c.charAt 1 == '\'' then go [x] (c.advance 2)
      else .ok ([], c)
    else if x == '"' then if double then .ok ([], c) else go [x] c.next
    else if x == '\\' then
      if double then (escape c.next).bind fun (s, c) => go s c else go [x] c.next
    else if isGap x then .ok ([], c)
    else go [x] c.next

def quotedRest (double : Bool) (quote : Char) : (fuel : Nat) → Cursor → Scan
  | 0, _ => malformed
  | fuel + 1, c =>
    (quotedWord double (c.rest.length + 1) c).bind fun (word, c) =>
      if c.char == quote then .ok (word, c.next)
      else (quotedSpaces c).bind fun (spaces, c) =>
        (quotedRest double quote fuel c).map fun (s, c) => (word ++ spaces ++ s, c)

def quotedText (c : Cursor) : Scan :=
  quotedRest (c.char == '"') c.char (c.rest.length + 1) c.next

/-! ## Plain texts -/

def plainBreaks : (fuel : Nat) → Cursor → Option (List Char) × Cursor
  | 0, c => (none, c)
  | fuel + 1, c =>
    if c.atSeparator && c.column == 0 then (none, c)
    else
      let c := c.skipWhile (· == ' ')
      match c.lineBreak? with
      | some (b, c) =>
        let (bs, c) := plainBreaks fuel c
        (bs.map (b :: ·), c)
      | none => (some [], c)

def plainSpaces (c : Cursor) : List Char × Bool × Cursor :=
  let (spaces, c) := c.takeWhile (· == ' ')
  match c.lineBreak? with
  | none => (spaces, false, c)
  | some (b, c) =>
    match plainBreaks (c.rest.length + 1) c with
    | (some bs, c) => (fold b bs, true, c)
    | (none, c) => ([], true, c)

def endsKey (flow : Bool) (next : Char) : Bool :=
  isGap next || (flow && [',', '[', ']', '\x7b', '\x7d'].contains next)

def plainLength (flow : Bool) : List Char → Nat
  | [] => 0
  | x :: r =>
    if isGap x then 0
    else if x == ':' && endsKey flow (r.headD '\x00') then 0
    else if flow && [',', '?', '[', ']', '\x7b', '\x7d'].contains x then 0
    else plainLength flow r + 1

/-- A plain text whose lines have to be indented by `least`: the text, whether its last gap ended a
line, and the place after it. -/
def plainText (flow : Bool) (least : Int) : (fuel : Nat) → Cursor → List Char × Bool × Cursor
  | 0, c => ([], false, c)
  | fuel + 1, c =>
    if c.char == '#' then ([], false, c)
    else
      let n := plainLength flow c.rest
      if n = 0 then ([], false, c)
      else
        let word := c.rest.take n
        let (spaces, ended, c) := plainSpaces (c.advance n)
        if spaces.isEmpty || c.char == '#' || (!flow && (c.column : Int) < least) then
          (word, ended, c)
        else
          let (more, ended', c') := plainText flow least fuel c
          if more.isEmpty then (word, ended, c') else (word ++ spaces ++ more, ended', c')

/-! ## Blocks -/

def blockBreaks (indent : Nat) : (fuel : Nat) → Cursor → List Char × Cursor
  | 0, c => ([], c)
  | fuel + 1, c =>
    let c := c.skipTo indent
    match c.lineBreak? with
    | some (b, c) =>
      let (bs, c) := blockBreaks indent fuel c
      (b :: bs, c)
    | none => ([], c)

def blockStart : (fuel : Nat) → (widest : Nat) → Cursor → List Char × Nat × Cursor
  | 0, widest, c => ([], widest, c)
  | fuel + 1, widest, c =>
    let c := c.skipWhile (· == ' ')
    let widest := max widest c.column
    match c.lineBreak? with
    | some (b, c) =>
      let (bs, widest, c) := blockStart fuel widest c
      (b :: bs, widest, c)
    | none => ([], widest, c)

def blockLines (folded : Bool) (indent : Nat) : (fuel : Nat) → (breaks : List Char) → Cursor →
    List Char × List Char × List Char × Cursor
  | 0, breaks, c => ([], [], breaks, c)
  | fuel + 1, breaks, c =>
    if c.column ≠ indent || c.char == '\x00' then ([], [], breaks, c)
    else
      let flush := c.char ≠ ' ' && c.char ≠ '\t'
      let (line, c) := c.takeWhile fun x => !isLineEnd x
      let (lineBreak, c) := match c.lineBreak? with
        | some (b, c) => ([b], c)
        | none => ([], c)
      let (later, c) := blockBreaks indent (c.rest.length + 1) c
      if c.column = indent && c.char ≠ '\x00' then
        let glue :=
          if folded && lineBreak == ['\n'] && flush && c.char ≠ ' ' && c.char ≠ '\t' then
            if later.isEmpty then [' '] else []
          else lineBreak
        let (text, lastBreak, tail, c) := blockLines folded indent fuel later c
        (breaks ++ line ++ glue ++ text, lastBreak, tail, c)
      else (breaks ++ line, lineBreak, later, c)

inductive Chomping where
  | clip
  | strip
  | keep
  deriving DecidableEq

def chompingSign? : Char → Option Chomping
  | '+' => some .keep
  | '-' => some .strip
  | _ => none

def blockHeader (c : Cursor) : Option (Chomping × Option Nat × Cursor) :=
  let sign (c : Cursor) : Option Chomping × Cursor :=
    match chompingSign? c.char with
    | some s => (some s, c.next)
    | none => (none, c)
  let width (c : Cursor) : Option Nat × Cursor :=
    if '0' ≤ c.char && c.char ≤ '9' then (some (c.char.toNat - 48), c.next) else (none, c)
  let (s, c) := sign c
  let (w, c) := width c
  let (s, c) := if s.isNone && w.isSome then sign c else (s, c)
  if w = some 0 || !(c.char == ' ' || isLineEnd c.char) then none
  else some (s.getD .clip, w, c)

def blockText (folded : Bool) (parent : Int) (c : Cursor) : Scan :=
  match blockHeader c with
  | none => malformed
  | some (chomping, width, c) =>
    let c := c.skipWhile (· == ' ')
    let c := if c.char == '#' then c.skipWhile (fun x => !isLineEnd x) else c
    if !isLineEnd c.char then malformed
    else
      let c := match c.lineBreak? with
        | some (_, c) => c
        | none => c
      let least := max 1 (parent + 1).toNat
      let (breaks, indent, c) := match width with
        | none =>
          let (bs, widest, c) := blockStart (c.rest.length + 1) 0 c
          (bs, max least widest, c)
        | some w =>
          let (bs, c) := blockBreaks (least + w - 1) (c.rest.length + 1) c
          (bs, least + w - 1, c)
      let (text, lastBreak, tail, c) := blockLines folded indent (c.rest.length + 1) breaks c
      .ok (text ++ (if chomping = .strip then [] else lastBreak) ++
        (if chomping = .keep then tail else []), c)

end ChunkBuild.Yaml
