import ChunkBuild.Fields
import ChunkBuild.Text.Characters
import ChunkBuild.Text.Pieces
/-!
# Command line grammars

Options, commands and operands of a command line. Long options may be shortened while only one fits
and may carry a value after `=`; single letters take no value and may stand together. After `--`
everything is an operand, and a `--` after `=` is no value but takes an earlier one back. Words that
no option or operand takes are collected as extra.
-/
namespace ChunkBuild.CommandLine

open ChunkBuild.Text

inductive Effect where
  | help
  | version
  | flag
  | value
  deriving DecidableEq, Repr

structure Opt where
  names : List String
  effect : Effect
  deriving DecidableEq, Repr

def Opt.key (o : Opt) : String := o.names.headD ""

def Opt.label (o : Opt) : String := join "/" o.names

/-- What a command line can hold: options, and either one operand that may be left out or a command
that brings its own grammar. -/
inductive Grammar where
  | place (program : String) (options : List Opt)
  | commands (program : String) (options : List Opt) (label : String) (isRequired : Bool)
      (choices : List (String × Grammar))

def Grammar.program : Grammar → String
  | .place program _ | .commands program _ _ _ _ => program

def Grammar.options : Grammar → List Opt
  | .place _ options | .commands _ options _ _ _ => options

def Grammar.usage (g : Grammar) : String :=
  let shown (o : Opt) : String :=
    "[" ++ o.key ++ (if o.effect = .value then " VALUE]" else "]")
  let operand := match g with
    | .place _ _ => "[path]"
    | .commands _ _ _ _ choices => "\x7b" ++ join "," (choices.map (·.1)) ++ "\x7d ..."
  "usage: " ++ join " " (g.program :: g.options.map shown ++ [operand]) ++ "\n"

structure Parsed where
  commands : List String := []
  flags : List String := []
  /-- The last value of each option, none when that was taken back. -/
  values : Fields (Option String) := []
  operand : Option String := none
  extra : List String := []
  deriving DecidableEq, Repr

inductive Stop where
  | help (g : Grammar)
  | version
  /-- The command line does not follow a grammar. -/
  | misuse (g : Grammar) (message : String)

/-! ## Words -/

inductive Word where
  | operand
  | separator
  | unknown
  /-- An option with the text attached to it. -/
  | option (o : Opt) (name : String) (attached : Option String)

/-- Whether a word is a negative number, a line end after it included. -/
def isNegativeNumber (s : String) : Bool :=
  match s.toList with
  | '-' :: r =>
    let body := if r.getLast? = some '\n' then r.dropLast else r
    match body.dropWhile isDigit with
    | [] => !body.isEmpty
    | '.' :: fraction => !fraction.isEmpty && fraction.all isDigit
    | _ => false
  | _ => false

def cutAtEquals (s : String) : String × Option String :=
  let cs := s.toList
  let name := String.ofList (cs.takeWhile (· ≠ '='))
  match cs.dropWhile (· ≠ '=') with
  | [] => (name, none)
  | _ :: r => (name, some (String.ofList r))

def named? (options : List Opt) (name : String) : Option Opt :=
  options.find? fun o => o.names.contains name

def candidates (options : List Opt) (s : String) : List (Opt × String × Option String) :=
  let all := options.flatMap fun o => o.names.map fun n => (o, n)
  if startsWith "--" s then
    let (start, attached) := cutAtEquals s
    (all.filter fun p => startsWith start p.2).map fun (o, n) => (o, n, attached)
  else
    let letter := String.ofList (s.toList.take 2)
    (all.filter fun p => p.2 = letter).map fun (o, n) =>
      (o, n, some (String.ofList (s.toList.drop 2)))

/-- What a word before any separator is; the message says why it can be more than one option. -/
def classify (options : List Opt) (s : String) : Except String Word :=
  if !startsWith "-" s then .ok .operand
  else match named? options s with
    | some o => .ok (.option o s none)
    | none =>
      if s = "-" then .ok .operand
      else
        let (name, attached) := cutAtEquals s
        match attached, named? options name with
        | some t, some o => .ok (.option o name (some t))
        | _, _ =>
          match candidates options s with
          | [] =>
            .ok (if isNegativeNumber s || s.toList.contains ' ' then .operand else .unknown)
          | [(o, n, attached)] => .ok (.option o n attached)
          | several =>
            .error ("ambiguous option: " ++ s ++ " could match " ++ join ", " (several.map (·.2.1)))

def classifyAll (options : List Opt) : List String → Except String (List (String × Word))
  | [] => .ok []
  | s :: r =>
    if s = "--" then .ok ((s, .separator) :: r.map fun t => (t, .operand))
    else (classify options s).bind fun w => (classifyAll options r).map ((s, w) :: ·)

/-! ## Items -/

inductive Item where
  | operand (s : String)
  | separator
  | unknown
  | valued (o : Opt) (value : Option String)
  | plain (os : List Opt)
  | misused (message : String)

def about (o : Opt) (message : String) : String := "argument " ++ o.label ++ ": " ++ message

def ignoredText (o : Opt) (text : List Char) : Item :=
  .misused (about o ("ignored explicit argument " ++ quoted (String.ofList text)))

def Item.after (o : Opt) : Item → Item
  | .plain os => .plain (o :: os)
  | i => i

/-- An option with the letters that follow its own, every one of which has to be an option. -/
def letters (options : List Opt) (o : Opt) : List Char → Item
  | [] => .plain [o]
  | c :: r =>
    match named? options (String.ofList ['-', c]) with
    | none => ignoredText o (c :: r)
    | some other => (letters options other r).after o

def attachedItem (options : List Opt) (o : Opt) (name text : String) : Item :=
  if o.effect = .value then .valued o (if text = "--" then none else some text)
  else if startsWith "--" name || text.isEmpty then ignoredText o text.toList
  else letters options o text.toList

def items (options : List Opt) : List (String × Word) → List (List String × Item)
  | [] => []
  | (s, .operand) :: r => ([s], .operand s) :: items options r
  | (s, .separator) :: r => ([s], .separator) :: items options r
  | (s, .unknown) :: r => ([s], .unknown) :: items options r
  | (s, .option o name (some text)) :: r =>
    ([s], attachedItem options o name text) :: items options r
  | (s, .option o _ none) :: r =>
    if o.effect = .value then
      match r with
      | (v, .operand) :: r => ([s, v], .valued o (some v)) :: items options r
      | _ => [([s], .misused (about o "expected one argument"))]
    else ([s], .plain [o]) :: items options r

/-! ## Parsing -/

def applyPlain (g : Grammar) (p : Parsed) : List Opt → Except Stop Parsed
  | [] => .ok p
  | o :: r =>
    match o.effect with
    | .help => .error (.help g)
    | .version => .error .version
    | .flag | .value => applyPlain g { p with flags := p.flags ++ [o.key] } r

def applyOption (g : Grammar) (p : Parsed) (written : List String) : Item → Except Stop Parsed
  | .valued o v => .ok { p with values := p.values.put o.key v }
  | .plain os => applyPlain g p os
  | .misused message => .error (.misuse g message)
  | .operand _ | .separator | .unknown => .ok { p with extra := p.extra ++ written }

inductive Slot where
  /-- It may still come. -/
  | free
  /-- It has just been taken; a separator behind it belongs to it. -/
  | taken
  /-- It was taken before. -/
  | past
  deriving DecidableEq

def Slot.leave : Slot → Slot
  | .free => .free
  | .taken | .past => .past

def parsePlace (g : Grammar) (p : Parsed) : Slot → List (List String × Item) → Except Stop Parsed
  | _, [] => .ok p
  | .free, (_, .operand s) :: r => parsePlace g { p with operand := some s } .taken r
  | .free, (_, .separator) :: r => parsePlace g p .free r
  | .taken, (_, .separator) :: r => parsePlace g p .past r
  | slot, (written, i) :: r =>
    (applyOption g p written i).bind fun p => parsePlace g p slot.leave r

def parseUpToCommand (g : Grammar) (p : Parsed) :
    List (List String × Item) → Except Stop (Parsed × Option (String × List String))
  | [] => .ok (p, none)
  | (_, .operand s) :: r => .ok (p, some (s, r.flatMap (·.1)))
  | (written, i) :: r =>
    match i, r with
    | .separator, _ :: _ => .ok (p, some ("--", r.flatMap (·.1)))
    | i, r => (applyOption g p written i).bind fun p => parseUpToCommand g p r

def unknownCommand (label s : String) (choices : List (String × Grammar)) : String :=
  "argument " ++ label ++ ": invalid choice: " ++ quoted s ++ " (choose from "
    ++ join ", " (choices.map fun c => quoted c.1) ++ ")"

/-- Parses words by a grammar; the number of words is enough `fuel`. -/
def parseFrom : (fuel : Nat) → Grammar → List String → Except Stop Parsed
  | 0, g, _ => .error (.misuse g "")
  | fuel + 1, g, ws =>
    match classifyAll g.options ws with
    | .error message => .error (.misuse g message)
    | .ok words =>
      let is := items g.options words
      match g with
      | .place _ _ => parsePlace g {} .free is
      | .commands _ _ label isRequired choices =>
        match parseUpToCommand g {} is with
        | .error stop => .error stop
        | .ok (p, none) =>
          if isRequired then
            .error (.misuse g ("the following arguments are required: " ++ label))
          else .ok p
        | .ok (p, some (s, rest)) =>
          match choices.find? fun c => c.1 = s with
          | none => .error (.misuse g (unknownCommand label s choices))
          | some (_, h) =>
            (parseFrom fuel h rest).map fun q =>
              { q with commands := s :: q.commands, extra := p.extra ++ q.extra }

def parse (g : Grammar) (ws : List String) : Except Stop Parsed :=
  match parseFrom (ws.length + 1) g ws with
  | .error stop => .error stop
  | .ok p =>
    if p.extra.isEmpty then .ok p
    else .error (.misuse g ("unrecognized arguments: " ++ join " " p.extra))

end ChunkBuild.CommandLine
