import ChunkBuild.CommandLine.Grammar
import ChunkBuild.Config.Environment
import ChunkBuild.Text.Characters
/-!
# How settings are written in arguments

A setting is named by a word such as `--group.field`. The settings themselves can ask for another
form: a start that every name has, hyphens for underscores, other signs in front, further names,
words that set a flag without a text.
-/
namespace ChunkBuild.Config

open ChunkBuild.Json ChunkBuild.Text ChunkBuild.CommandLine

structure ArgumentForm where
  /-- What every name starts with. -/
  start : String := ""
  /-- The characters that begin the words of settings. -/
  signs : String := "-"
  usesHyphens : Bool := false
  /-- Whether flags are set by words without texts. -/
  setsFlags : Bool := false
  /-- Whether words that name no setting are passed over. -/
  skipsUnknown : Bool := false
  /-- Whether groups cannot be written as a whole. -/
  avoidsJson : Bool := false
  /-- The text that stands for nothing. -/
  nothing : String := "null"
  /-- Further names, under the name that they are put beside. -/
  otherNames : Fields Value := []
  /-- Whether arguments that do not fit end the program. -/
  endsProgram : Bool := true

namespace ArgumentForm

/-- The start of all names: a name between points with a point behind it. -/
def startOf : Value → Except Failure String
  | .str s =>
    let isDotted := startsWith "." s || s.toList.getLast? = some '.'
    if s.isEmpty then .ok ""
    else if isDotted || !isIdentifierChars (s.toList.filter (· ≠ '.')) then
      .error (.unreadableVariable "" "CliSettingsSource")
    else .ok (s ++ ".")
  | v =>
    if v.isGiven then .error (.noAttribute "a start of names has to be a text") else .ok ""

def signsOf : Value → Except Failure String
  | .null => .ok "-"
  | .str s => if s.isEmpty then .error .outOfRange else .ok s
  | _ => .error (.badType "a sign has to be a text")

def otherNamesOf : Value → Except Failure (Fields Value)
  | .obj fields => .ok fields
  | v => if v.isGiven then .error (.noAttribute "names have to be given by name") else .ok []

def ofFields (fields : Fields Value) : Except Failure ArgumentForm := do
  let given (key : String) : Bool := (lookup fields key).isGiven
  let start ← startOf (lookup fields "_cli_prefix")
  let signs ← signsOf (lookup fields "_cli_flag_prefix_char")
  let avoided := lookup fields "_cli_avoid_json"
  let usual := match avoided with
    | .bool true => "None"
    | _ => "null"
  return {
    start, signs
    usesHyphens := given "_cli_kebab_case"
    setsFlags := given "_cli_implicit_flags"
    skipsUnknown := given "_cli_ignore_unknown_args"
    avoidsJson := avoided.isGiven
    nothing := ((lookup fields "_cli_parse_none_str").str?.filter (!·.isEmpty)).getD usual
    otherNames := ← otherNamesOf (lookup fields "_cli_shortcuts")
    endsProgram := match lookup fields "_cli_exit_on_error" with
      | .null => true
      | v => v.isGiven }

/-- The sign in front of a name; a name of one letter has a single one. -/
def signFor (f : ArgumentForm) (name : String) : String :=
  String.ofList ((f.signs ++ f.signs).toList.take (if name.length = 1 then 1 else 2))

def written (f : ArgumentForm) (name : String) : String :=
  if f.usesHyphens then String.ofList (name.toList.map fun c => if c = '_' then '-' else c)
  else name

def namesIn : Value → Except Failure (List String)
  | .str s => .ok [s]
  | .arr items => items.mapM fun
    | .str s => .ok s
    | _ => .error (.badType "a name has to be a text")
  | .obj fields => .ok (fields.map (·.1))
  | v => .error (.badType ("'" ++ v.kindName ++ "' object is not iterable"))

def namesOf (f : ArgumentForm) (name : String) : Except Failure (List String) :=
  let own := f.written name
  match f.otherNames.get? own with
  | none => .ok [own]
  | some others => (namesIn others).map (own :: ·)

end ArgumentForm

/-! ## Settings -/

structure Setting where
  name : String
  /-- The words that name it, with the text that a word alone stands for. -/
  words : Fields (Option String)
  /-- Whether its texts are put together to a list. -/
  isList : Bool := false
  /-- Whether it can stand without a text; it is an empty group then. -/
  isGroup : Bool := false
  deriving DecidableEq, Repr

def chunkFields : List String :=
  ["name", "entry", "exports", "import_as", "factory_preamble", "factory_postamble"]

namespace ArgumentForm

def textSetting (f : ArgumentForm) (name : String) (isList isGroup : Bool) :
    Except Failure Setting :=
  (f.namesOf (f.start ++ name)).map fun names =>
    { name := f.start ++ name
      words := names.map fun n => (f.signFor n ++ n, none)
      isList, isGroup }

def flagSetting (f : ArgumentForm) (name : String) : Except Failure Setting :=
  if !f.setsFlags then f.textSetting name false false
  else (f.namesOf (f.start ++ name)).map fun names =>
    { name := f.start ++ name
      words := names.flatMap fun n =>
        let on := f.signFor n ++ n
        (on, some "true") :: (after? "--".toList on.toList).toList.map fun r =>
          ("--no-" ++ String.ofList r, some "false") }

def fieldSettings (f : ArgumentForm) (name : String) (group : Group) :
    Except Failure (List Setting) :=
  let fields := if name = "chunks" then chunkFields else group.fields
  fields.mapM fun field =>
    let place := name ++ "." ++ field
    if group.flags.contains field then f.flagSetting place
    else f.textSetting place (group.lists.contains field) false

def settings (f : ArgumentForm) : Except Failure (List Setting) := do
  let grouped ← groups.mapM fun (name, group) => do
    let whole ← f.textSetting name (name = "chunks") true
    let fields ← f.fieldSettings name group
    return if f.avoidsJson then fields else whole :: fields
  return grouped.flatten ++ [← f.flagSetting "debug"]

end ArgumentForm

/-! ## Words -/

inductive ArgumentWord where
  | unknown
  | text
  | help
  /-- It can be more than one option, or an option that it does not fit. -/
  | unfit
  /-- It names a setting, with the text that it stands for or that is attached to it. -/
  | setting (s : Setting) (text : Option String)
  /-- It names a setting whose text it takes back. -/
  | emptied (s : Setting)

namespace ArgumentForm

def helpWords (f : ArgumentForm) : List String :=
  let sign := if f.signs.toList.contains '-' then "-" else String.ofList (f.signs.toList.take 1)
  [sign ++ "h", sign ++ sign ++ "help"]

/-- What a word with a text attached to it is. A separator is no text but takes it back. -/
def attachedWord (s : Setting) (fixed : Option String) (text : String) : ArgumentWord :=
  if fixed.isSome then .unfit
  else if text ≠ "--" then .setting s (some text)
  else if s.isGroup then .setting s (some "\x7b\x7d")
  else .emptied s

def named (settings : List Setting) (word : String) : List (Setting × Option String) :=
  settings.filterMap fun s => (s.words.get? word).map fun fixed => (s, fixed)

/-- What a word is that names no setting as it stands. A word with a single sign may be a short one
with its text behind it. -/
def shortened (f : ArgumentForm) (settings : List Setting) (word : String) : ArgumentWord :=
  let isSign (c : Char) : Bool := f.signs.toList.contains c
  let rest (isSingle : Bool) : ArgumentWord :=
    let short := String.ofList (word.toList.take 2)
    let text := String.ofList (word.toList.drop 2)
    let fits (w : String) : Bool := w = short || startsWith word w
    let found := settings.flatMap fun s => s.words.filterMap fun (w, fixed) =>
      if fits w then some (if w = short then attachedWord s fixed text else .setting s fixed)
      else none
    let helping := f.helpWords.filter fits
    match (if isSingle then found ++ helping.map fun _ => .unfit else []) with
    | [] =>
      if isNegativeNumber word || word.toList.contains ' ' then .text else .unknown
    | [w] => w
    | _ => .unfit
  match word.toList with
  | _ :: c :: _ => rest (!isSign c)
  | _ => .text

def wordOf (f : ArgumentForm) (settings : List Setting) (word : String) : ArgumentWord :=
  match word.toList with
  | [] => .text
  | c :: _ =>
    if word = "--" then .unknown
    else if !f.signs.toList.contains c then .text
    else match named settings word with
    | (s, fixed) :: _ => .setting s fixed
    | [] =>
      if f.helpWords.contains word then .help
      else if word.length = 1 then .text
      else match cutAtEquals word with
      | (_, none) => f.shortened settings word
      | (name, some text) =>
        match named settings name with
        | (s, fixed) :: _ => attachedWord s fixed text
        | [] => if f.helpWords.contains name then .unfit else f.shortened settings word

end ArgumentForm

end ChunkBuild.Config
