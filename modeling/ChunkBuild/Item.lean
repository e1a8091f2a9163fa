import ChunkBuild.Json.Value
/-!
# Values with places

What a file holds, with the identity of its mappings. An alias lets one mapping stand at several places,
and what is changed at one of them is changed at all.
-/
namespace ChunkBuild

open ChunkBuild.Json ChunkBuild.Number

/-- What a file holds. The places of one mapping bear the same mark, and a mapping with a single place
needs none. -/
inductive Item where
  | null
  | bool (b : Bool)
  | int (n : Int)
  | float (x : Binary64)
  | str (s : String)
  | calendar (kind : String)
  | list (items : List Item)
  | mapping (mark : Option Nat) (fields : List (String × Item))
  deriving Inhabited

namespace Item

mutual

def toValue : Item → Value
  | .null => .null
  | .bool b => .bool b
  | .int n => .int n
  | .float x => .float x
  | .str s => .str s
  | .calendar kind => .calendar kind
  | .list items => .arr (itemValues items)
  | .mapping _ fields => .obj (fieldValues fields)

def itemValues : List Item → List Value
  | [] => []
  | item :: r => item.toValue :: itemValues r

def fieldValues : Fields Item → Fields Value
  | [] => []
  | (key, item) :: r => (key, item.toValue) :: fieldValues r

end

mutual

/-- A value all of whose mappings have single places. -/
def ofValue : Value → Item
  | .null => .null
  | .bool b => .bool b
  | .int n => .int n
  | .float x => .float x
  | .str s => .str s
  | .calendar kind => .calendar kind
  | .arr items => .list (ofItems items)
  | .obj fields => .mapping none (ofFields fields)

def ofItems : List Value → List Item
  | [] => []
  | v :: r => ofValue v :: ofItems r

def ofFields : Fields Value → Fields Item
  | [] => []
  | (key, v) :: r => (key, ofValue v) :: ofFields r

end

mutual

def changed (mark : Nat) (change : Fields Item → Fields Item) : Item → Item
  | .list items => .list (changedItems mark change items)
  | .mapping m fields =>
    .mapping m (if m = some mark then change fields else changedFields mark change fields)
  | item => item

def changedItems (mark : Nat) (change : Fields Item → Fields Item) : List Item → List Item
  | [] => []
  | item :: r => item.changed mark change :: changedItems mark change r

def changedFields (mark : Nat) (change : Fields Item → Fields Item) : Fields Item → Fields Item
  | [] => []
  | (key, item) :: r => (key, item.changed mark change) :: changedFields mark change r

end

end Item

end ChunkBuild
