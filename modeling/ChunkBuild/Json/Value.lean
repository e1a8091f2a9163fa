import ChunkBuild.Fields
import ChunkBuild.Number.Binary64
/-!
# JSON values

Data as configuration files, tool output and source maps hold it. Objects keep the order of their
keys, and integers stay apart from other numbers.
-/
namespace ChunkBuild.Json

open ChunkBuild.Number

/-- A value. Besides JSON's own kinds there are calendar values, which other notations can write
but JSON cannot; only their kind is kept. -/
inductive Value where
  | null
  | bool (b : Bool)
  | int (n : Int)
  | float (x : Binary64)
  | str (s : String)
  | arr (items : List Value)
  | obj (fields : List (String × Value))
  | calendar (kind : String)
  deriving Inhabited

namespace Value

def ofOption (f : α → Value) : Option α → Value
  | none => .null
  | some a => f a

def texts (xs : List String) : Value := .arr (xs.map .str)

/-- A value counts as given unless it is null, false, zero or empty. -/
def isGiven : Value → Bool
  | .null => false
  | .bool b => b
  | .int n => n != 0
  | .float x => !x.isZero
  | .str s => !s.isEmpty
  | .arr items => !items.isEmpty
  | .obj fields => !fields.isEmpty
  | .calendar _ => true

def kindName : Value → String
  | .null => "NoneType"
  | .bool _ => "bool"
  | .int _ => "int"
  | .float _ => "float"
  | .str _ => "str"
  | .arr _ => "list"
  | .obj _ => "dict"
  | .calendar kind => kind

def str? : Value → Option String
  | .str s => some s
  | _ => none

def items? : Value → Option (List Value)
  | .arr items => some items
  | _ => none

def fields? : Value → Option (Fields Value)
  | .obj fields => some fields
  | _ => none

def texts? (v : Value) : Option (List String) := v.items?.bind fun items => items.mapM str?

theorem texts?_texts (xs : List String) : (texts xs).texts? = some xs := by
  have h : (xs.map str).mapM str? = some xs := by
    induction xs with
    | nil => rfl
    | cons x r ih =>
      rw [List.map_cons, List.mapM_cons, ih]
      rfl
  exact h

end Value

def lookup (fields : Fields Value) (key : String) : Value := (fields.get? key).getD .null

/-! ## Equal values

Values are equal as what they say, not as they are written: a truth value, an integer and a float of
one value are equal, and so are objects with equal values under the same keys in any order. What is
no number equals nothing, itself included. -/

def Value.whole? : Value → Option Int
  | .bool b => some (if b then 1 else 0)
  | .int n => some n
  | .float x => x.toInt?
  | _ => none

def Value.isEqualLeaf (v w : Value) : Bool :=
  match v.whole?, w.whole? with
  | some m, some n => m == n
  | some _, none | none, some _ => false
  | none, none =>
    match v, w with
    | .null, .null => true
    | .float .notANumber, _ => false
    | .float x, .float y => x == y
    | .str s, .str t => s == t
    | .calendar k, .calendar l => k == l
    | _, _ => false

mutual

def Value.isEqual : Value → Value → Bool
  | .arr items, .arr others => areEqual items others
  | .obj fields, .obj others => fields.length == others.length && areIn others fields
  | v, w => v.isEqualLeaf w

def areEqual : List Value → List Value → Bool
  | [], [] => true
  | v :: r, w :: s => v.isEqual w && areEqual r s
  | _, _ => false

def areIn (object : Fields Value) : List (String × Value) → Bool
  | [] => true
  | (k, v) :: r =>
    (match object.get? k with
      | some w => v.isEqual w
      | none => false) && areIn object r

end

end ChunkBuild.Json
