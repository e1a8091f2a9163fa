import ChunkBuild.Config.Checked
import ChunkBuild.Failure
import ChunkBuild.Text.Characters
/-!
# Compiler options

The option set of a build. Strict and debug builds turn groups of diagnostics into errors.
-/
namespace ChunkBuild.Compiler

open ChunkBuild.Json ChunkBuild.Text ChunkBuild.Config

inductive Level where
  | whitespaceOnly
  | simple
  | advanced
  deriving DecidableEq, Repr

namespace Level

def text : Level → String
  | .whitespaceOnly => "WHITESPACE_ONLY"
  | .simple => "SIMPLE_OPTIMIZATIONS"
  | .advanced => "ADVANCED_OPTIMIZATIONS"

def all : List Level := [.whitespaceOnly, .simple, .advanced]

/-- The level of a name in any case, or of its words up to an underscore. -/
def ofText? (s : String) : Option Level :=
  let wanted := upper (trim s)
  all.find? fun l => l.text == wanted || startsWith (wanted ++ "_") l.text

def ofText (s : String) : Except Failure Level :=
  match ofText? s with
  | some l => .ok l
  | none => .error (.badValue ("Unknown compilation level: " ++ s))

end Level

inductive Warnings where
  | quiet
  | standard
  | verbose
  deriving DecidableEq, Repr

def Warnings.text : Warnings → String
  | .quiet => "QUIET"
  | .standard => "DEFAULT"
  | .verbose => "VERBOSE"

def errorGroups : List String :=
  ["accessControls", "checkPrototypalTypes", "checkRegExp", "checkTypes", "checkVars",
    "conformanceViolations", "const", "constantProperty", "deprecated", "deprecatedAnnotations",
    "duplicateMessage", "es5Strict", "externsValidation", "extraRequire", "functionParams",
    "globalThis", "invalidCasts", "misplacedTypeAnnotation", "missingPolyfill",
    "missingProperties", "missingProvide", "missingRequire", "missingReturn", "moduleLoad",
    "msgDescriptions", "nonStandardJsDocs", "strictModuleDepCheck", "suspiciousCode",
    "typeInvalidation", "undefinedVars", "underscore", "unknownDefines", "unusedLocalVariables",
    "unusedPrivateMembers", "uselessCode", "untranspilableFeatures", "visibility"]

structure Options where
  level : Level := .simple
  warnings : Warnings := .standard
  languageIn : String := "ECMASCRIPT_2020"
  languageOut : String := "ECMASCRIPT5_STRICT"
  polyfills : Bool := true
  hideWarningsFor : List String := ["node_modules"]
  defines : List String := ["COMPILED=true"]
  externs : List String := []
  errors : List String := []
  deriving DecidableEq, Repr

namespace Options

def toFields (o : Options) : Fields Value :=
  [("compilation_level", .str o.level.text), ("warning_level", .str o.warnings.text),
    ("language_in", .str o.languageIn), ("language_out", .str o.languageOut),
    ("rewrite_polyfills", .bool o.polyfills),
    ("hide_warnings_for", .texts o.hideWarningsFor), ("define", .texts o.defines),
    ("externs", .texts o.externs), ("jscomp_error", .texts o.errors)]

def checkMember (members : List (String × α)) : Value → Checked α
  | .str s => checkWritten
    (fun s => match members.find? (·.1 = s) with
      | some (_, a) => .fits a
      | none => .misfit .notMember) s
  | _ => .misfit .notMember

def levels : List (String × Level) := Level.all.map fun l => (l.text, l)

def warningLevels : List (String × Warnings) :=
  [Warnings.quiet, .standard, .verbose].map fun w => (w.text, w)

def check (fields : Fields Value) : Checked Options :=
  let d : Options := {}
  Options.mk <$> fieldOr fields "compilation_level" d.level (checkMember levels)
    <*> fieldOr fields "warning_level" d.warnings (checkMember warningLevels)
    <*> fieldOr fields "language_in" d.languageIn checkText
    <*> fieldOr fields "language_out" d.languageOut checkText
    <*> fieldOr fields "rewrite_polyfills" d.polyfills checkFlag
    <*> fieldOr fields "hide_warnings_for" d.hideWarningsFor (checkList checkText)
    <*> fieldOr fields "define" d.defines (checkList checkText)
    <*> fieldOr fields "externs" d.externs (checkList checkText)
    <*> fieldOr fields "jscomp_error" d.errors (checkList checkText)

def ofFields (fields : Fields Value) : Except Failure Options :=
  match check fields with
  | .ok o => .ok o
  | .error e => .error (.invalidSettings "CompilerOptions" e)

/-- The items that a value given for a list holds: a text counts by characters and an object by
keys. -/
def looseItems : Value → Except Failure (List Value)
  | .arr items => .ok items
  | .str s => .ok ((splitLetters s).map .str)
  | .obj fields => .ok (fields.map fun f => .str f.1)
  | v => .error (.badType ("'" ++ v.kindName ++ "' object is not iterable"))

def errorsFor (debug strict : Bool) : List String :=
  if debug || strict then errorGroups ++ (if strict then ["strictCheckTypes"] else []) else []

/-- The definitions handed to the compiler; a version is given as a quoted text. -/
def definesFor (version versionDefine : Value) : List String :=
  "COMPILED=true" ::
    (if version.isGiven then [versionDefine.display ++ "=\"" ++ version.display ++ "\""] else [])

def forBuild (settings : Fields Value) : Except Failure Options := do
  let given (key : String) : Bool := (lookup settings key).isGiven
  let warnings := if given "verbose" then Warnings.verbose else .standard
  let externs ← looseItems ((settings.get? "externs").getD (.arr []))
  let versionDefine := (settings.get? "version_define").getD (.str "VERSION")
  ofFields
    [("warning_level", .str warnings.text), ("externs", .arr externs),
      ("jscomp_error", .texts (errorsFor (given "debug") (given "strict"))),
      ("define", .texts (definesFor (lookup settings "version") versionDefine))]

end Options

end ChunkBuild.Compiler
