import ChunkBuild.Config.ArgumentForm
import ChunkBuild.Json.Value
import ChunkBuild.Text.Integer
/-!
# Settings in arguments

Settings can be given as words of a command line: `--group.field value` sets a field of a group,
`--group` a whole group or the list of chunks, written as JSON. A list can be given in several
words, each with items between commas.
-/
namespace ChunkBuild.Config

open ChunkBuild.Json ChunkBuild.Text ChunkBuild.CommandLine

inductive ArgumentStop where
  | help
  | unfit

def readArguments (f : ArgumentForm) (settings : List Setting) :
    List String → Except ArgumentStop (List (Setting × Option String))
  | [] => .ok []
  | word :: r =>
    let passing (found : List (Setting × Option String)) :=
      if f.skipsUnknown then Except.ok found else Except.error ArgumentStop.unfit
    if word = "--" then passing []
    else match f.wordOf settings word, r with
    | .help, _ => .error .help
    | .unfit, _ => .error .unfit
    | .text, r | .unknown, r => (readArguments f settings r).bind passing
    | .emptied s, r => (readArguments f settings r).map ((s, none) :: ·)
    | .setting s (some text), r => (readArguments f settings r).map ((s, some text) :: ·)
    | .setting s none, [] => if s.isGroup then .ok [(s, some "\x7b\x7d")] else .error .unfit
    | .setting s none, text :: r =>
      match f.wordOf settings text with
      | .text => (readArguments f settings r).map ((s, some text) :: ·)
      | _ =>
        if s.isGroup then
          (readArguments f settings (text :: r)).map ((s, some "\x7b\x7d") :: ·)
        else .error .unfit

/-- A word with the name that it starts with in lower case. A line end after the name and all that
follows it are lost. -/
def respelledWord (f : ArgumentForm) (word : String) : String :=
  let cs := word.toList
  let signs := (cs.takeWhile fun c => some c = f.signs.toList.head?).take 2
  let name := (cs.drop signs.length).takeWhile fun c => c ≠ '=' && !isBlank c
  if signs.isEmpty || name.isEmpty then word
  else
    let rest := (cs.drop (signs.length + name.length)).takeWhile (· ≠ '\n')
    String.ofList signs ++ lower (String.ofList name) ++ String.ofList rest

/-! ## Lists -/

def areDigits (cs : List Char) : Bool := cs.isEmpty || (digitRun cs).isSome

def isNumberText (s : List Char) : Bool :=
  let (_, body) := readSign (trimBy isBlank s)
  let isExponent (c : Char) : Bool := c = 'e' || c = 'E'
  let mantissa := body.takeWhile (!isExponent ·)
  let exponent := body.dropWhile (!isExponent ·)
  let whole := mantissa.takeWhile (· ≠ '.')
  let fraction := (mantissa.dropWhile (· ≠ '.')).drop 1
  ["inf", "infinity", "nan"].contains (lower (String.ofList body)) ||
    (areDigits whole && areDigits fraction && !(whole.isEmpty && fraction.isEmpty) &&
      (exponent.isEmpty || (digitRun (readSign (exponent.drop 1)).2).isSome))

/-- An item of a list as JSON: numbers and words as they are, other texts between quotes. `nothing`
is what stands for null. -/
def itemText (nothing : String) (s : List Char) : List Char :=
  let known := ["true", "false", "null"].contains (String.ofList s)
  if isNumberText s then s
  else if String.ofList s = nothing then "null".toList
  else if known || s.head? = some '"' then s
  else '"' :: s ++ ['"']

/-- The text of an item up to a comma that is not between quotes, and the rest; none when a quote is
not closed. `last` is the character before. -/
def untilComma (quoted : Bool) (last : Char) : List Char → Option (List Char × List Char)
  | [] => if quoted then none else some ([], [])
  | c :: r =>
    let quoted := if c = '"' && last ≠ '\\' then !quoted else quoted
    if !quoted && c = ',' then some ([], c :: r)
    else (untilComma quoted c r).map fun (s, rest) => (c :: s, rest)

/-- The text of a group or list up to the bracket that closes it, and the rest. `depth` brackets are
open and `last` is the character before. -/
def untilClosed (closing : Char) (quoted : Bool) (depth : Int) (last : Char) :
    List Char → Option (List Char × List Char)
  | [] => none
  | c :: r =>
    let go (quoted : Bool) (depth : Int) : Option (List Char × List Char) :=
      (untilClosed closing quoted depth c r).map fun (s, rest) => (c :: s, rest)
    if c = '"' && last ≠ '\\' then go (!quoted) depth
    else if quoted then go quoted depth
    else if c = '\x7b' || c = '[' then go quoted (depth + 1)
    else if c = '\x7d' || c = ']' then
      if c = closing && depth = 1 then some ([c], r) else go quoted (depth - 1)
    else go quoted depth

/-- The items of a text as JSON, an empty one where nothing stands between commas. `afterItem` says
whether an item comes before. The number of characters is enough `fuel`. -/
def listItems (nothing : String) :
    (fuel : Nat) → (afterItem : Bool) → List Char → Option (List (List Char) × Bool)
  | 0, afterItem, _ => some ([], afterItem)
  | fuel + 1, afterItem, s =>
    let put (item : List Char) (rest : List Char) : Option (List (List Char) × Bool) :=
      (listItems nothing fuel true rest).map fun (items, last) => (item :: items, last)
    match trimBy isBlank s with
    | [] => some ([], afterItem)
    | ',' :: r =>
      (listItems nothing fuel false r).map fun (items, last) =>
        (if afterItem then items else ['"', '"'] :: items, last)
    | '\x7b' :: r =>
      (untilClosed '\x7d' false 1 '\x7b' r).bind fun (item, rest) => put ('\x7b' :: item) rest
    | '[' :: r => (untilClosed ']' false 1 '[' r).bind fun (item, rest) => put ('[' :: item) rest
    | s =>
      (untilComma false ' ' s).bind fun (item, rest) =>
        put (itemText nothing (trimBy isBlank item)) rest

def mergedItems (nothing : String) (afterItem : Bool) : List String → Option (List (List Char))
  | [] => some []
  | text :: r => do
    let s := trimBy isBlank text.toList
    let bare := if s.head? = some '[' && s.getLast? = some ']' then
        trimBy isBlank (s.drop 1).dropLast
      else s
    let (items, last) ← listItems nothing (bare.length + 1) afterItem bare
    let items := if last then items else items ++ [['"', '"']]
    return items ++ (← mergedItems nothing last r)

def mergedList (nothing name : String) (texts : List String) : Except Failure String :=
  match mergedItems nothing false texts with
  | some items => .ok ("[" ++ join "," (items.map String.ofList) ++ "]")
  | none => .error (.unreadableVariable name "CliSettingsSource")

/-! ## Settings -/

/-- The texts of settings by name. The last text of a setting counts, and one that is taken back is
an empty list. The texts of a list are put together up to one that is taken back. -/
def argumentTexts (nothing : String) (found : List (Setting × Option String)) :
    Except Failure (Fields String) :=
  found.foldlM (fun done (s, text) =>
    if s.isList then
      let texts := (found.filter fun f => f.1 = s).map (·.2)
      (mergedList nothing s.name ((texts.takeWhile (·.isSome)).filterMap id)).map
        (done.put s.name ·)
    else .ok (done.put s.name (text.getD "[]"))) []

/-- The words that a value holds. What is empty and no text counts as an empty word. -/
def argumentWords : List Value → Except Failure (List String)
  | [] => .ok []
  | .str s :: r => (argumentWords r).map (s :: ·)
  | v :: r =>
    if v.isGiven then .error (.badType "an argument has to be a text")
    else (argumentWords r).map ("" :: ·)

/-- The texts of the settings that arguments give. Arguments that do not fit end the program, or are
unreadable where they are not to end it. -/
def textsOfArguments (f : ArgumentForm) (isExact : Bool) (settings : List Setting)
    (items : List Value) : Except Failure (Fields String) := do
  let words ← argumentWords items
  let words := if isExact then words else words.map (respelledWord f)
  match readArguments f settings words with
  | .ok found => argumentTexts f.nothing found
  | .error .help => throw (.ended 0)
  | .error .unfit =>
    if f.endsProgram then throw (.ended 2)
    else throw (.unreadableVariable "" "CliSettingsSource")

def ofArguments (n : Naming) (fields : Fields Value) : Except Failure (Fields Value) := do
  match lookup fields "_cli_parse_args" with
  | .null => return []
  | v =>
    let f ← ArgumentForm.ofFields fields
    let settings ← f.settings
    let texts ← match v with
      | .bool _ => pure []
      | .arr items => textsOfArguments f n.isExact settings items
      | v =>
        if v.isEqual (.bool false) then pure []
        else throw (.unreadableVariable "" "CliSettingsSource")
    let naming : Naming :=
      { start := .str f.start, separator := .str ".", isExact := n.isExact
        nothing := some f.nothing }
    ofEnvironment "CliSettingsSource" naming (texts.map fun (name, text) => (name, some text))

end ChunkBuild.Config
