import ChunkBuild.Config.IntegerText
import ChunkBuild.Text.Characters
/-!
# Checking values against a model

Each kind of field says which values it takes. A section is checked as a whole: all its misfits are
collected, in the order of its fields.
-/
namespace ChunkBuild.Config

open ChunkBuild.Json ChunkBuild.Text ChunkBuild.Number

def Checked (α : Type) := Except (List InvalidField) α

namespace Checked

variable {α β : Type}

def fits (a : α) : Checked α := Except.ok a

def misfit (m : Misfit) : Checked α := Except.error [⟨[], m⟩]

def both : Checked (α → β) → Checked α → Checked β
  | .ok f, .ok a => .ok (f a)
  | .error e, .ok _ => .error e
  | .ok _, .error e => .error e
  | .error d, .error e => .error (d ++ e)

instance : Applicative Checked where
  pure := fits
  seq f a := both f (a ())

def inside (place : Place) : Checked α → Checked α
  | .ok a => .ok a
  | .error e => .error (e.map fun m => { m with place := place :: m.place })

end Checked

def checkText : Value → Checked String
  | .str s => .fits s
  | _ => .misfit .notText

def checkOptionalText : Value → Checked (Option String)
  | .null => .fits none
  | .str s => .fits (some s)
  | _ => .misfit .notText

def flagWord? (s : String) : Option Bool :=
  let w := lower s
  if ["0", "off", "f", "false", "n", "no"].contains w then some false
  else if ["1", "on", "t", "true", "y", "yes"].contains w then some true
  else none

def checkFlagWord (s : String) : Checked Bool :=
  match flagWord? s with
  | some b => .fits b
  | none => .misfit .unreadableFlag

/-- Integers of this size and beyond are not converted. -/
def integerBound : Nat := Nat.pow 2 63

/-- A number as a flag: only zero and one are. A number is no candidate at all below `least` or
from `integerBound` on. -/
def flagNumber (least n : Int) : Checked Bool :=
  if n = 0 then .fits false
  else if n = 1 then .fits true
  else if least ≤ n && n < integerBound then .misfit .unreadableFlag
  else .misfit .notFlag

def checkWritten (check : String → Checked α) (s : String) : Checked α :=
  if hasHalf s then .misfit .halved else check s

def checkFlag : Value → Checked Bool
  | .bool b => .fits b
  | .str s => checkWritten checkFlagWord s
  | .int n => flagNumber (-integerBound) n
  | .float x =>
    match x.toInt? with
    | some n => flagNumber (1 - integerBound) n
    | none => .misfit .notFlag
  | _ => .misfit .notFlag

def checkInteger (s : String) : Checked Int :=
  match integerOf s with
  | .ok n => .fits n
  | .error m => .misfit m

/-- An integer that is not negative, also as a flag, a whole number or a text. -/
def checkCount (v : Value) : Checked Int :=
  let least (n : Int) : Checked Int := if n < 0 then .misfit .tooSmall else .fits n
  match v with
  | .int n => least n
  | .bool b => .fits (if b then 1 else 0)
  | .str s =>
    match checkWritten checkInteger s with
    | .ok n => least n
    | .error e => .error e
  | .float (.finite negative m e) =>
    match (Binary64.finite negative m e).toInt? with
    | some n => if n.natAbs < integerBound then least n else .misfit .oversizedInteger
    | none => .misfit .fractional
  | .float _ => .misfit .notFinite
  | _ => .misfit .notInteger

def checkItems (check : Value → Checked α) (position : Nat) : List Value → Checked (List α)
  | [] => .fits []
  | v :: r =>
    (List.cons <$> (check v).inside (.item position)) <*> checkItems check (position + 1) r

def checkList (check : Value → Checked α) : Value → Checked (List α)
  | .arr items => checkItems check 0 items
  | _ => .misfit .notList

def fieldOr (group : Fields Value) (key : String) (default : α) (check : Value → Checked α) :
    Checked α :=
  match group.get? key with
  | none => .fits default
  | some v => (check v).inside (.key key)

def fieldOf (group : Fields Value) (key : String) (check : Value → Checked α) : Checked α :=
  match group.get? key with
  | none => (Checked.misfit .missing).inside (.key key)
  | some v => (check v).inside (.key key)

end ChunkBuild.Config
