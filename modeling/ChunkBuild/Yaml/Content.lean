import ChunkBuild.Item
import ChunkBuild.Yaml.Node
import ChunkBuild.Yaml.Scalar
/-!
# Contents of YAML documents

What the nodes of a document stand for. The pairs of mappings under a merge key `<<` are put in
front of a mapping's own pairs. Every fault of a document is found; the one that counts is the
outermost, and the first of those that are equally deep.
-/
namespace ChunkBuild.Yaml

open ChunkBuild.Json

inductive Content where
  | scalar (s : Scalar)
  /-- A scalar that stands for nothing. -/
  | unreadable (e : ReadError)
  | sequence (items : List Content)
  | mapping (mark : Option Nat) (pairs : List (Content × Content))
  /-- A mapping with something else than mappings under a merge key. -/
  | unmergeable
  deriving Inhabited

def Content.ofText (text : String) (plain : Bool) : Content :=
  if plain then
    match plainScalar text with
    | .ok s => .scalar s
    | .error e => .unreadable e
  else .scalar (.value (.str text))

def Node.isMergeKey : Node → Bool
  | .scalar text plain => plain && text == "<<"
  | _ => false

/-- What a key stands for, `c` being what its node stands for: an equals sign is a text as a key. -/
def keyContent (n : Node) (c : Content) : Content :=
  match n with
  | .scalar "=" true => .scalar (.value (.str "="))
  | _ => c

/-- The pairs to be merged that a mapping, or a list of mappings, stands for. Of a list the last
mapping comes first. -/
def mergedPairs? : Content → Option (List (Content × Content))
  | .mapping _ pairs => some pairs
  | .sequence items =>
    let pairsOf? : Content → Option (List (Content × Content))
      | .mapping _ pairs => some pairs
      | _ => none
    (items.mapM pairsOf?).map fun lists => lists.reverse.flatten
  | _ => none

/-- The mapping of some pairs; a pair without a key is to be merged. -/
def joinedPairs (mark : Option Nat) (pairs : List (Option Content × Content)) : Content :=
  let own := pairs.filterMap fun p => p.1.map fun k => (k, p.2)
  match (pairs.filter fun p => p.1.isNone).mapM fun p => mergedPairs? p.2 with
  | some merged => .mapping mark (merged.flatten ++ own)
  | none => .unmergeable

mutual

def Node.content : Node → Content
  | .scalar text plain => .ofText text plain
  | .sequence ns => .sequence (itemContents ns)
  | .mapping mark ps => joinedPairs mark (pairContents ps)
  | .anchored _ _ | .reference _ => .unreadable .malformed

def itemContents : List Node → List Content
  | [] => []
  | n :: r => n.content :: itemContents r

def pairContents : List (Node × Node) → List (Option Content × Content)
  | [] => []
  | (k, v) :: r =>
    (if k.isMergeKey then none else some (keyContent k k.content), v.content) :: pairContents r

end

/-! ## Faults -/

abbrev Fault := Nat × ReadError

def outermost : Option Fault → Option Fault → Option Fault
  | some a, some b => if b.1 < a.1 then some b else some a
  | some a, none => some a
  | none, b => b

/-- The fault of a key. Collections are no keys, whatever they hold. -/
def keyFault? : Content → Option Fault
  | .scalar _ => none
  | .unreadable e => some (0, e)
  | .sequence _ | .mapping _ _ | .unmergeable => some (0, .malformed)

def deeper : Option Fault → Option Fault := Option.map fun f => (f.1 + 1, f.2)

mutual

def Content.fault? : Content → Option Fault
  | .scalar _ => none
  | .unreadable e => some (0, e)
  | .sequence items => deeper (itemsFault? items)
  | .mapping _ pairs => deeper (pairsFault? pairs)
  | .unmergeable => some (1, .malformed)

def itemsFault? : List Content → Option Fault
  | [] => none
  | c :: r => outermost c.fault? (itemsFault? r)

def pairsFault? : List (Content × Content) → Option Fault
  | [] => none
  | (k, v) :: r => outermost (keyFault? k) (outermost v.fault? (pairsFault? r))

end

/-! ## Values -/

/-- Sets the item of a key. A key that is there already keeps its first spelling. -/
def putKey (k : Scalar) (item : Item) : List (Scalar × Item) → List (Scalar × Item)
  | [] => [(k, item)]
  | (l, old) :: r => if l.isSame k then (l, item) :: r else (l, old) :: putKey k item r

/-- The fields of keys with their items. A key that is no text is known by the text that shows
it. -/
def keyedFields (pairs : List (Scalar × Item)) : Fields Item :=
  Fields.putAll [] ((pairs.foldl (fun acc p => putKey p.1 p.2 acc) []).map fun p =>
    (p.1.display, p.2))

mutual

def Content.item : Content → Item
  | .scalar s => .ofValue s.toValue
  | .sequence cs => .list (contentItems cs)
  | .mapping mark pairs => .mapping mark (keyedFields (pairItems pairs))
  | .unreadable _ | .unmergeable => .null

def contentItems : List Content → List Item
  | [] => []
  | c :: r => c.item :: contentItems r

def pairItems : List (Content × Content) → List (Scalar × Item)
  | [] => []
  | (.scalar k, v) :: r => (k, v.item) :: pairItems r
  | (_, _) :: r => pairItems r

end

mutual

def Content.hasLongKey : Content → Bool
  | .sequence items => anyHasLongKey items
  | .mapping _ pairs => anyPairHasLongKey pairs
  | .scalar _ | .unreadable _ | .unmergeable => false

def anyHasLongKey : List Content → Bool
  | [] => false
  | c :: r => c.hasLongKey || anyHasLongKey r

def anyPairHasLongKey : List (Content × Content) → Bool
  | [] => false
  | (.scalar k, v) :: r => k.toValue.isUnprintable || v.hasLongKey || anyPairHasLongKey r
  | (_, v) :: r => v.hasLongKey || anyPairHasLongKey r

end

namespace Content

def hasTextKeys : Content → Bool
  | .mapping _ pairs => pairs.all fun p => match p.1 with
    | .scalar k => k.isText
    | _ => false
  | _ => true

def parse (s : String) : Except ReadError Content := do
  let c := (← Node.parse s).content
  match c.fault? with
  | some (_, e) => throw e
  | none => pure c

end Content

end ChunkBuild.Yaml
