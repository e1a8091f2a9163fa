import ChunkBuild.Yaml.Text
/-!
# YAML tokens

A text as a list of tokens. Where blocks begin and end follows from the columns. Whether a scalar or
a flow collection is a key only shows at the colon after it, so each is remembered as a possible key
and the key token is put in front of it then. From a place on that cannot be read, the tokens end in
a fault; it stands before the possible keys that were not settled yet.
-/
namespace ChunkBuild.Yaml

inductive Token where
  | documentStart
  | documentEnd
  | blockSequence
  | blockMapping
  | blockEnd
  | flowSequence
  | flowSequenceEnd
  | flowMapping
  | flowMappingEnd
  | entry
  | flowEntry
  | key
  | value
  /-- A name for the node that follows. -/
  | anchor (name : String)
  /-- The node of a name once more. -/
  | reference (name : String)
  /-- A scalar; a plain one can stand for something else than its text. -/
  | scalar (text : String) (plain : Bool)
  /-- What cannot be read. -/
  | fault (e : ReadError)
  deriving DecidableEq, Repr

/-- A possible key: the number of tokens before it, where it starts, and whether nothing else can
stand there. -/
structure PossibleKey where
  position : Nat
  line : Nat
  column : Nat
  offset : Nat
  required : Bool

/-- A possible key has to end on its line and within this many characters. -/
def keyLimit : Nat := 1024

def PossibleKey.isPast (k : PossibleKey) (c : Cursor) : Bool :=
  k.line ≠ c.line || c.offset - k.offset > keyLimit

structure Scanner where
  cursor : Cursor
  /-- The tokens read, last first. -/
  done : List Token := []
  /-- The columns of the open blocks, innermost first. -/
  blocks : List Nat := []
  /-- The possible key of the innermost flow collection, or of the block. -/
  possible : Option PossibleKey := none
  /-- The possible keys around the open flow collections, innermost first. -/
  around : List (Option PossibleKey) := []
  /-- Whether a key can start here. -/
  keyAllowed : Bool := true

namespace Scanner

def inFlow (s : Scanner) : Bool := !s.around.isEmpty

/-- The column of the innermost block, -1 outside of blocks. -/
def indent (s : Scanner) : Int :=
  match s.blocks with
  | [] => -1
  | column :: _ => column

def emit (t : Token) (s : Scanner) : Scanner := { s with done := t :: s.done }

def emitSign (t : Token) (s : Scanner) : Scanner :=
  { s with done := t :: s.done, cursor := s.cursor.next }

def insertAt (position : Nat) (t : Token) (s : Scanner) : Scanner :=
  let later := s.done.length - position
  { s with done := s.done.take later ++ t :: s.done.drop later }

def skipGaps : (fuel : Nat) → Scanner → Scanner
  | 0, s => s
  | fuel + 1, s =>
    let c := s.cursor.skipWhile (· == ' ')
    let c := if c.char == '#' then c.skipWhile fun x => !isLineEnd x else c
    match c.lineBreak? with
    | some (_, c) => skipGaps fuel { s with cursor := c, keyAllowed := s.keyAllowed || !s.inFlow }
    | none => { s with cursor := c }

def forget : Option PossibleKey → Except ReadError (Option PossibleKey)
  | some k => if k.required then malformed else .ok none
  | none => .ok none

def forgetPast (c : Cursor) : Option PossibleKey → Except ReadError (Option PossibleKey)
  | some k => if k.isPast c then forget (some k) else .ok (some k)
  | none => .ok none

def forgetAllPast (s : Scanner) : Except ReadError Scanner := do
  let possible ← forgetPast s.cursor s.possible
  let around ← s.around.mapM (forgetPast s.cursor)
  pure { s with possible := possible, around := around }

def forgetHere (s : Scanner) : Except ReadError Scanner :=
  (forget s.possible).map fun p => { s with possible := p }

def remember (s : Scanner) : Except ReadError Scanner :=
  if s.keyAllowed then
    s.forgetHere.map fun s =>
      let k : PossibleKey :=
        { position := s.done.length
          line := s.cursor.line
          column := s.cursor.column
          offset := s.cursor.offset
          required := !s.inFlow && s.indent = s.cursor.column }
      { s with possible := some k }
  else .ok s

def endBlocks (column : Int) :
    (blocks : List Nat) → (done : List Token) → List Nat × List Token
  | [], done => ([], done)
  | b :: r, done =>
    if column < b then endBlocks column r (.blockEnd :: done) else (b :: r, done)

/-- Ends the blocks that are indented deeper than a column; flow collections ignore columns. -/
def leave (column : Int) (s : Scanner) : Scanner :=
  if s.inFlow then s
  else
    let (blocks, done) := endBlocks column s.blocks s.done
    { s with blocks := blocks, done := done }

def openBlock (t : Token) (s : Scanner) : Scanner :=
  if s.indent < s.cursor.column then
    { s with blocks := s.cursor.column :: s.blocks, done := t :: s.done }
  else s

def separator (s : Scanner) : Except ReadError Scanner :=
  (s.leave (-1)).forgetHere.map fun s =>
    let t := if s.cursor.char == '-' then Token.documentStart else .documentEnd
    { s with keyAllowed := false, done := t :: s.done, cursor := s.cursor.advance 3 }

def openFlow (t : Token) (s : Scanner) : Except ReadError Scanner :=
  s.remember.map fun s =>
    { s.emitSign t with possible := none, around := s.possible :: s.around, keyAllowed := true }

def closeFlow (t : Token) (s : Scanner) : Except ReadError Scanner :=
  match s.around with
  | [] => malformed
  | outer :: around =>
    .ok { s.emitSign t with possible := outer, around := around, keyAllowed := false }

def comma (s : Scanner) : Except ReadError Scanner :=
  s.forgetHere.map fun s => { s.emitSign .flowEntry with keyAllowed := true }

def dash (s : Scanner) : Except ReadError Scanner :=
  if s.inFlow || !s.keyAllowed then malformed
  else (s.openBlock .blockSequence).forgetHere.map fun s =>
    { s.emitSign .entry with keyAllowed := true }

def question (s : Scanner) : Except ReadError Scanner :=
  if !s.inFlow && !s.keyAllowed then malformed
  else
    let s := if s.inFlow then s else s.openBlock .blockMapping
    s.forgetHere.map fun s => { s.emitSign .key with keyAllowed := !s.inFlow }

def colon (s : Scanner) : Except ReadError Scanner :=
  match s.possible with
  | some k =>
    let s := s.insertAt k.position .key
    let s :=
      if !s.inFlow && s.indent < k.column then
        { s.insertAt k.position .blockMapping with blocks := k.column :: s.blocks }
      else s
    .ok { s.emitSign .value with possible := none, keyAllowed := false }
  | none =>
    if s.inFlow then .ok { s.emitSign .value with keyAllowed := false }
    else if s.keyAllowed then
      .ok { (s.openBlock .blockMapping).emitSign .value with keyAllowed := true }
    else malformed

def isNameChar (c : Char) : Bool := c.isAlphanum || c == '-' || c == '_'

def endsName (c : Char) : Bool := isGap c || ['?', ':', ',', ']', '\x7d', '%', '@', '\x60'].contains c

def named (t : String → Token) (s : Scanner) : Except ReadError Scanner := do
  let s ← s.remember
  let (name, c) := s.cursor.next.takeWhile isNameChar
  if name.isEmpty || !endsName c.char then malformed
  else pure { s.emit (t (String.ofList name)) with cursor := c, keyAllowed := false }

def block (folded : Bool) (s : Scanner) : Except ReadError Scanner := do
  let s ← s.forgetHere
  let (text, c) ← blockText folded s.indent s.cursor.next
  pure { s.emit (.scalar (String.ofList text) false) with cursor := c, keyAllowed := true }

def quotation (s : Scanner) : Except ReadError Scanner := do
  let s ← s.remember
  let (text, c) ← quotedText s.cursor
  pure { s.emit (.scalar (String.ofList text) false) with cursor := c, keyAllowed := false }

def plain (s : Scanner) : Except ReadError Scanner :=
  s.remember.map fun s =>
    let (text, ended, c) := plainText s.inFlow (s.indent + 1) (s.cursor.rest.length + 1) s.cursor
    { s.emit (.scalar (String.ofList text) true) with cursor := c, keyAllowed := ended }

def indicators : List Char :=
  ['-', '?', ':', ',', '[', ']', '\x7b', '\x7d', '#', '&', '*', '!', '|', '>', '\'', '"', '%', '@',
    '\x60']

def startsPlain (flow : Bool) (c : Cursor) : Bool :=
  let x := c.char
  (!isGap x && !indicators.contains x) ||
    (!isGap (c.charAt 1) && (x == '-' || (!flow && (x == '?' || x == ':'))))

def token (s : Scanner) : Except ReadError Scanner :=
  let c := s.cursor
  let x := c.char
  let alone := isGap (c.charAt 1)
  if c.column = 0 && c.atSeparator then s.separator
  else if x == '[' then s.openFlow .flowSequence
  else if x == '\x7b' then s.openFlow .flowMapping
  else if x == ']' then s.closeFlow .flowSequenceEnd
  else if x == '\x7d' then s.closeFlow .flowMappingEnd
  else if x == ',' then s.comma
  else if x == '-' && alone then s.dash
  else if x == '?' && (s.inFlow || alone) then s.question
  else if x == ':' && (s.inFlow || alone) then s.colon
  else if x == '*' then s.named .reference
  else if x == '&' then s.named .anchor
  else if (x == '|' || x == '>') && !s.inFlow then s.block (x == '>')
  else if x == '\'' || x == '"' then s.quotation
  else if startsPlain s.inFlow c then s.plain
  else malformed

/-- The number of tokens before the first one that is still waiting for others. A possible key of
the innermost flow collection gives way where another one can start. -/
def settled (s : Scanner) : Nat :=
  let here := if s.keyAllowed then none else s.possible
  ((here :: s.around).filterMap id).foldl (fun n k => min n k.position) s.done.length

def broken (s : Scanner) (e : ReadError) : List Token :=
  s.done.reverse.take s.settled ++ [.fault e]

def run : (fuel : Nat) → Scanner → List Token
  | 0, s => s.broken .malformed
  | fuel + 1, s =>
    match (s.skipGaps (s.cursor.rest.length + 1)).forgetAllPast with
    | .error e => s.broken e
    | .ok s =>
      if s.cursor.rest.isEmpty then
        match (s.leave (-1)).forgetHere with
        | .error e => s.broken e
        | .ok s => s.done.reverse
      else match (s.leave s.cursor.column).token with
        | .error e => s.broken e
        | .ok s => run fuel s

end Scanner

/-- The tokens of a text. A character that may not stand in it anywhere makes all of it a fault. -/
def Token.scan (s : String) : List Token :=
  let cs := s.toList
  if cs.all isAllowed then
    let start : Cursor := { rest := cs }
    let start := if start.char == '\uFEFF' then start.next else start
    Scanner.run (cs.length + 1) { cursor := start }
  else [.fault .malformed]

end ChunkBuild.Yaml
