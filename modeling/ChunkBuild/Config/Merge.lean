import ChunkBuild.Item
/-!
# Merging layers of settings

A later layer wins. Where both layers hold a section under a key, the sections are merged; any other
value replaces what was there.

Layers are merged by changing the lower one. An alias in a file lets one mapping stand at several
places: what is changed at one of them is changed at all of them.
-/
namespace ChunkBuild.Config

open ChunkBuild.Json

mutual

/-- The value under a key after a layer that holds `new` there was merged over `old`. -/
def mergeValue (old : Option Value) (new : Value) : Value :=
  match new with
  | .obj fields =>
    match old with
    | some (.obj base) => .obj (merge base fields)
    | _ => .obj fields
  | v => v

def merge (base : Fields Value) : Fields Value → Fields Value
  | [] => base
  | (key, v) :: r => merge (base.put key (mergeValue (base.get? key) v)) r

end

/-! ## Merging in place -/

def mappingAt? (fields : Fields Item) : List String → Option (Fields Item)
  | [] => some fields
  | key :: path =>
    match fields.get? key with
    | some (.mapping _ inner) => mappingAt? inner path
    | _ => none

/-- The last mapping with a mark on a path, and the path from there. -/
def lastMark? (fields : Fields Item) : List String → Option (Nat × List String)
  | [] => none
  | key :: path =>
    match fields.get? key with
    | some (.mapping mark inner) => (lastMark? inner path).or (mark.map fun m => (m, path))
    | _ => none

/-- Sets a key of the mapping to which a path leads, at this place alone. -/
def putAt (fields : Fields Item) (path : List String) (key : String) (item : Item) : Fields Item :=
  match path with
  | [] => fields.put key item
  | name :: path =>
    match fields.get? name with
    | some (.mapping mark inner) => fields.put name (.mapping mark (putAt inner path key item))
    | _ => fields

/-- Sets a key of the mapping to which a path leads, at all of its places. -/
def assign (fields : Fields Item) (path : List String) (key : String) (item : Item) : Fields Item :=
  match lastMark? fields path with
  | none => putAt fields path key item
  | some (mark, rest) => Item.changedFields mark (fun inner => putAt inner rest key item) fields

mutual

def mergeItem (fields : Fields Item) (path : List String) (key : String) (new : Item) : Fields Item :=
  match new with
  | .mapping mark inner =>
    match mappingAt? fields (path ++ [key]) with
    | some _ => mergeAt fields (path ++ [key]) inner
    | none => assign fields path key (.mapping mark inner)
  | item => assign fields path key item

def mergeAt (fields : Fields Item) (path : List String) : (new : Fields Item) → Fields Item
  | [] => fields
  | (key, item) :: r => mergeAt (mergeItem fields path key item) path r

end

def mergeOver (fields new : Fields Item) : Fields Item := mergeAt fields [] new

end ChunkBuild.Config
