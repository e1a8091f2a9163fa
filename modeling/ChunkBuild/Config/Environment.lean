import ChunkBuild.Config.Merge
import ChunkBuild.Failure
import ChunkBuild.Json.Reader
import ChunkBuild.Text.Characters
/-!
# Settings in the environment

A variable `CHUNKLINK_GROUP__FIELD` sets a field of a group, in any letter case. A whole group or
the list of chunks is written as JSON in the variable of its own name, and the variables of single
fields change what that one holds. The settings themselves can ask for other names.
-/
namespace ChunkBuild.Config

open ChunkBuild.Json ChunkBuild.Text

structure Group where
  fields : List String
  lists : List String := []
  flags : List String := []

def groups : List (String × Group) :=
  [("resolver",
      { fields := ["command", "node_command", "min_node_version", "deps_file", "base_js_path",
          "cache_file"] }),
    ("compiler",
      { fields := ["command", "externs", "compiled_suffix", "namespace_object", "debug", "strict",
          "verbose", "version", "version_define"]
        lists := ["externs"]
        flags := ["debug", "strict", "verbose"] }),
    ("transform",
      { fields := ["flatten_area", "source_root", "license_holders"]
        lists := ["license_holders"] }),
    ("build", { fields := ["build_dir", "staging_dir"] }),
    ("chunks", { fields := [] })]

def settingNames : List String := groups.map (·.1) ++ ["debug"]

structure Naming where
  /-- What every name starts with. -/
  start : Value := .str "CHUNKLINK_"
  /-- What separates a group from a field; with nothing there, fields have no variables. -/
  separator : Value := .str "__"
  /-- Into how many parts the name of a field is split at most. -/
  limit : Value := .null
  /-- Whether letter case counts, in the names of variables and in those of settings. -/
  isExact : Bool := false
  /-- Whether empty variables are left out. -/
  skipsEmpty : Bool := false
  /-- The text that stands for nothing. -/
  nothing : Option String := none

namespace Naming

/-- Into how many parts names are split at most. A number below one is no limit, and what is no
integer cannot be one. -/
def partLimit : Value → Except Failure (Option Nat)
  | .bool b => .ok (if b then some 1 else none)
  | .int n => .ok (if n ≤ 0 then none else some n.toNat)
  | v =>
    if v.isGiven then .error (.badType ("a limit cannot be of type '" ++ v.kindName ++ "'"))
    else .ok none

def checkLimit : Value → Except Failure Unit
  | .float _ => .ok ()
  | v => (partLimit v).map fun _ => ()

/-- The naming that settings ask for; what is missing or null stays as usual. What names start with
has to have a length, and is left out when it is meant for other names than these. -/
def ofFields (fields : Fields Value) : Except Failure Naming := do
  let given (key : String) : Option Value := (fields.get? key).filter fun
    | .null => false
    | _ => true
  let usual : Naming := {}
  let start := (given "_env_prefix").getD usual.start
  match start with
  | .str _ | .arr _ | .obj _ => pure ()
  | v => throw (.badType ("object of type '" ++ v.kindName ++ "' has no len()"))
  checkLimit (lookup fields "_env_nested_max_split")
  let isMeant := match given "_env_prefix_target" with
    | none => true
    | some v => v.str? = some "variable" || v.str? = some "all"
  return {
    start := if isMeant then start else .str ""
    separator := (given "_env_nested_delimiter").getD usual.separator
    limit := lookup fields "_env_nested_max_split"
    isExact := (lookup fields "_case_sensitive").isGiven
    skipsEmpty := (lookup fields "_env_ignore_empty").isGiven
    nothing := (lookup fields "_env_parse_none_str").str? }

def parts (n : Naming) (separator name : String) : Except Failure (List String) :=
  (partLimit n.limit).map fun
    | none => split separator name
    | some most => splitAtMost most separator name

def spelled (n : Naming) (name : String) : String := if n.isExact then name else lower name

/-- The settings among fields. Of names that differ in case only, the first one counts. -/
def recognized (n : Naming) (fields : Fields Value) : Fields Value :=
  settingNames.filterMap fun name =>
    (fields.find? fun f => n.spelled f.1 = name).map fun f => (name, f.2)

end Naming

structure Variables where
  /-- What they come from, as failures name it. -/
  source : String
  naming : Naming
  start : String
  /-- Their texts; a variable in a file may have none. -/
  texts : Fields (Option String)

namespace Variables

/-- The variables of an environment; of two names that are looked for as one, the later value
counts. A start of names that is no text is noticed at the first group. -/
def read (source : String) (n : Naming) (environment : Fields (Option String)) :
    Except Failure Variables :=
  match n.start.str? with
  | none => .error (.unreadableVariable "resolver" source)
  | some start =>
    let kept := environment.filter fun v => !(n.skipsEmpty && v.2 = some "")
    .ok ⟨source, n, start, kept.foldl (fun acc v => acc.put (n.spelled v.1) v.2) []⟩

def nameOf (vs : Variables) (field : String) : String := vs.naming.spelled (vs.start ++ field)

def text? (vs : Variables) (field : String) : Option String :=
  (vs.texts.get? (vs.nameOf field)).join

def isNothing (vs : Variables) (text : String) : Bool := vs.naming.nothing = some text

def value (vs : Variables) (text : String) : Value :=
  if vs.isNothing text then .null else .str text

end Variables

def decoded (source field text : String) : Except Failure Value :=
  match parse text with
  | .ok v => .ok v
  | .error (.tooDeep kind) => .error (.tooDeep kind.message)
  | .error _ => .error (.unreadableVariable field source)

/-- Sets the value at the end of a path of keys; below a value that is no group nothing is set. -/
def setAt (fields : Fields Value) (v : Value) : List String → Fields Value
  | [] => fields
  | [key] => fields.put key v
  | key :: next :: rest =>
    match fields.get? key with
    | some (.obj inner) => fields.put key (.obj (setAt inner v (next :: rest)))
    | some _ => fields
    | none => fields.put key (.obj (setAt [] v (next :: rest)))

def isSetAt (fields : Fields Value) : List String → Bool
  | [] => false
  | [key] => match fields.get? key with
    | none | some (.obj []) => false
    | some _ => true
  | key :: next :: rest => match fields.get? key with
    | some (.obj inner) => isSetAt inner (next :: rest)
    | _ => false

/-- Whether a path of keys leads to a list of a group. The last key may also be the name that a
variable of the list itself would have. -/
def namesList (vs : Variables) (group : Group) : List String → Bool
  | [key] => group.lists.any fun field => key = field || key = vs.nameOf field
  | _ => false

/-- The fields with what a variable sets at a path of keys. A variable that stands for nothing sets
only what no other one has set, one without a text sets nothing but null. -/
def setVariable (vs : Variables) (name : String) (group : Group) (fields : Fields Value)
    (path : List String) : Option String → Except Failure (Fields Value)
  | none => .ok (setAt fields .null path)
  | some text =>
    if namesList vs group path && !text.isEmpty then
      (decoded vs.source name text).map fun v => setAt fields v path
    else if vs.isNothing text && isSetAt fields path then .ok fields
    else .ok (setAt fields (vs.value text) path)

def fieldVariables (vs : Variables) (name : String) (group : Group) :
    Except Failure (Fields Value) :=
  let separator := vs.naming.separator
  if !separator.isGiven then .ok []
  else vs.texts.foldlM (fun acc (key, text) =>
    match after? (vs.nameOf name ++ separator.display).toList key.toList, separator.str? with
    | none, _ => .ok acc
    | some _, none => .error (.badType "the separator of variables has to be a text")
    | some rest, some separator =>
      (vs.naming.parts separator (String.ofList rest)).bind fun path =>
        setVariable vs name group acc path text) []

def respelled (n : Naming) (group : Group) (fields : Fields Value) : Fields Value :=
  fields.foldl (fun acc f =>
    let name := (group.fields.find? fun known => n.spelled known = n.spelled f.1).getD f.1
    acc.put name f.2) []

def groupVariable (vs : Variables) (name : String) (group : Group) :
    Except Failure (Option Value) := do
  match vs.text? name with
  | some text =>
    if vs.isNothing text then pure (some .null)
    else match ← decoded vs.source name text with
      | .null => pure none
      | .obj fields =>
        let fields := merge fields (← fieldVariables vs name group)
        pure (some (.obj (respelled vs.naming group fields)))
      | v => pure (some v)
  | none =>
    let fields ← fieldVariables vs name group
    pure (if fields.isEmpty then none else some (.obj (respelled vs.naming group fields)))

def ofEnvironment (source : String) (n : Naming) (environment : Fields (Option String)) :
    Except Failure (Fields Value) := do
  let vs ← Variables.read source n environment
  let found ← groups.filterMapM fun (name, group) => do
    pure ((← groupVariable vs name group).map fun v => (name, v))
  let debug := (vs.text? "debug").toList.map fun s => ("debug", vs.value s)
  pure (found ++ debug)

end ChunkBuild.Config
