import ChunkBuild.Yaml.Token
/-!
# YAML documents

The tree that the tokens of a text describe. A text holds at most one document. A node that is given
a name can be referred to further on and stands there once more. Left out are tags and directives.
-/
namespace ChunkBuild.Yaml

/-- A node. The places of one mapping bear the same mark; one whose place is its only one needs
none. -/
inductive Node where
  | scalar (text : String) (plain : Bool)
  | sequence (items : List Node)
  | mapping (mark : Option Nat) (pairs : List (Node × Node))
  | anchored (name : String) (n : Node)
  | reference (name : String)
  deriving Inhabited

def Node.empty : Node := .scalar "" true

inductive Position where
  /-- Inside a flow collection: no block. -/
  | flow
  /-- The document itself or an item of a block. -/
  | block
  /-- A key or a value of a block, where items need no indentation of their own. -/
  | pair
  deriving DecidableEq

def stuck {α : Type} : List Token → Except ReadError α
  | .fault e :: _ => .error e
  | _ => malformed

def startsWithAny (options : List Token) (ts : List Token) : Bool :=
  (ts.head?.map fun t => options.contains t).getD true

/-- Whether a node follows that can bear a name; the empty one bears it otherwise. A fault counts, too,
since it has to be found. -/
def startsNode (position : Position) : List Token → Bool
  | .scalar _ _ :: _ | .flowSequence :: _ | .flowMapping :: _ | .fault _ :: _ => true
  | .entry :: _ => position = .pair
  | .blockSequence :: _ | .blockMapping :: _ => position ≠ .flow
  | _ => false

def openLimit : Nat := 490

def opened (room : Nat) (read : Nat → Except ReadError α) : Except ReadError α :=
  match room with
  | 0 => .error .tooDeep
  | room + 1 => read room

mutual

/-- A node at the start of the tokens, and what follows it. `room` collections more may be open at
once. Twice the number of tokens is enough `fuel`. -/
def node (fuel room : Nat) (position : Position) (ts : List Token) :
    Except ReadError (Node × List Token) :=
  match fuel with
  | 0 => malformed
  | fuel + 1 =>
    match ts with
    | .scalar text plain :: r => .ok (.scalar text plain, r)
    | .reference name :: r => .ok (.reference name, r)
    | .anchor name :: r =>
      if startsNode position r then
        (node fuel room position r).map fun (n, r) => (.anchored name n, r)
      else .ok (.anchored name .empty, r)
    | .flowSequence :: r =>
      opened room fun room => (flowItems fuel room true r).map fun (ns, r) => (.sequence ns, r)
    | .flowMapping :: r =>
      opened room fun room => (flowPairs fuel room true r).map fun (ps, r) => (.mapping none ps, r)
    | .entry :: _ =>
      if position ≠ .pair then malformed
      else opened room fun room => (looseItems fuel room ts).map fun (ns, r) => (.sequence ns, r)
    | .blockSequence :: r =>
      if position = .flow then malformed
      else opened room fun room => (items fuel room r).map fun (ns, r) => (.sequence ns, r)
    | .blockMapping :: r =>
      if position = .flow then malformed
      else opened room fun room => (pairs fuel room r).map fun (ps, r) => (.mapping none ps, r)
    | ts => stuck ts

def nodeBefore (fuel room : Nat) (stops : List Token) (position : Position) (ts : List Token) :
    Except ReadError (Node × List Token) :=
  match fuel with
  | 0 => malformed
  | fuel + 1 => if startsWithAny stops ts then .ok (.empty, ts) else node fuel room position ts

def items (fuel room : Nat) (ts : List Token) : Except ReadError (List Node × List Token) :=
  match fuel with
  | 0 => malformed
  | fuel + 1 =>
    match ts with
    | .blockEnd :: r => .ok ([], r)
    | .entry :: r => do
      let (n, r) ← nodeBefore fuel room [.entry, .blockEnd] .block r
      let (ns, r) ← items fuel room r
      pure (n :: ns, r)
    | ts => stuck ts

def looseItems (fuel room : Nat) (ts : List Token) : Except ReadError (List Node × List Token) :=
  match fuel with
  | 0 => malformed
  | fuel + 1 =>
    match ts with
    | .entry :: r => do
      let (n, r) ← nodeBefore fuel room [.entry, .key, .value, .blockEnd] .block r
      let (ns, r) ← looseItems fuel room r
      pure (n :: ns, r)
    | ts => .ok ([], ts)

def pairs (fuel room : Nat) (ts : List Token) :
    Except ReadError (List (Node × Node) × List Token) :=
  match fuel with
  | 0 => malformed
  | fuel + 1 =>
    match ts with
    | .blockEnd :: r => .ok ([], r)
    | .key :: r => do
      let (k, r) ← nodeBefore fuel room [.key, .value, .blockEnd] .pair r
      let (v, r) ← valueAfter fuel room [.key, .value, .blockEnd] .pair r
      let (ps, r) ← pairs fuel room r
      pure ((k, v) :: ps, r)
    | ts => stuck ts

def valueAfter (fuel room : Nat) (stops : List Token) (position : Position) (ts : List Token) :
    Except ReadError (Node × List Token) :=
  match fuel with
  | 0 => malformed
  | fuel + 1 =>
    match ts with
    | .value :: r => nodeBefore fuel room stops position r
    | ts => .ok (.empty, ts)

def flowItems (fuel room : Nat) (first : Bool) (ts : List Token) :
    Except ReadError (List Node × List Token) :=
  match fuel with
  | 0 => malformed
  | fuel + 1 =>
    let item (ts : List Token) : Except ReadError (List Node × List Token) :=
      match ts with
      | .flowSequenceEnd :: r => .ok ([], r)
      | .key :: r => do
        let (k, r) ← nodeBefore fuel room [.value, .flowEntry, .flowSequenceEnd] .flow r
        let (v, r) ← valueAfter fuel room [.flowEntry, .flowSequenceEnd] .flow r
        let (ns, r) ← flowItems fuel room false r
        pure (.mapping none [(k, v)] :: ns, r)
      | ts => do
        let (n, r) ← node fuel room .flow ts
        let (ns, r) ← flowItems fuel room false r
        pure (n :: ns, r)
    match first, ts with
    | true, ts => item ts
    | false, .flowSequenceEnd :: r => .ok ([], r)
    | false, .flowEntry :: r => item r
    | false, ts => stuck ts

def flowPairs (fuel room : Nat) (first : Bool) (ts : List Token) :
    Except ReadError (List (Node × Node) × List Token) :=
  match fuel with
  | 0 => malformed
  | fuel + 1 =>
    let pair (ts : List Token) : Except ReadError (List (Node × Node) × List Token) :=
      match ts with
      | .flowMappingEnd :: r => .ok ([], r)
      | .key :: r => do
        let (k, r) ← nodeBefore fuel room [.value, .flowEntry, .flowMappingEnd] .flow r
        let (v, r) ← valueAfter fuel room [.flowEntry, .flowMappingEnd] .flow r
        let (ps, r) ← flowPairs fuel room false r
        pure ((k, v) :: ps, r)
      | ts => do
        let (k, r) ← node fuel room .flow ts
        let (ps, r) ← flowPairs fuel room false r
        pure ((k, .empty) :: ps, r)
    match first, ts with
    | true, ts => pair ts
    | false, .flowMappingEnd :: r => .ok ([], r)
    | false, .flowEntry :: r => pair r
    | false, ts => stuck ts

end

/-! ## Names -/

structure Names where
  known : Fields Node := []
  count : Nat := 0

/-- What is known of a node while it is being read. -/
def Node.outline (mark : Nat) : Node → Node
  | .sequence _ => .sequence []
  | .mapping _ _ => .mapping (some mark) []
  | n => n

mutual

/-- A node with those in place of names to which it refers. Mappings inside of a node with a name are
marked, since they can have several places. A node that refers to itself is empty there. -/
def Node.named (isNamed : Bool) (names : Names) : Node → Except ReadError (Node × Names)
  | .scalar text plain => .ok (.scalar text plain, names)
  | .sequence ns => (namedItems isNamed names ns).map fun (ns, names) => (.sequence ns, names)
  | .mapping _ ps =>
    let mark := if isNamed then some names.count else none
    (namedPairs isNamed { names with count := names.count + 1 } ps).map fun (ps, names) =>
      (.mapping mark ps, names)
  | .anchored name n =>
    if names.known.has name then malformed
    else
      let outline := n.outline names.count
      (n.named true { names with known := names.known.put name outline }).map fun (n, names) =>
        (n, { names with known := names.known.put name n })
  | .reference name =>
    match names.known.get? name with
    | some n => .ok (n, names)
    | none => malformed

def namedItems (isNamed : Bool) (names : Names) : List Node → Except ReadError (List Node × Names)
  | [] => .ok ([], names)
  | n :: r => do
    let (n, names) ← n.named isNamed names
    let (ns, names) ← namedItems isNamed names r
    pure (n :: ns, names)

def namedPairs (isNamed : Bool) (names : Names) :
    List (Node × Node) → Except ReadError (List (Node × Node) × Names)
  | [] => .ok ([], names)
  | (k, v) :: r => do
    let (k, names) ← k.named isNamed names
    let (v, names) ← v.named isNamed names
    let (ps, names) ← namedPairs isNamed names r
    pure ((k, v) :: ps, names)

end

def Node.ofTokens (ts : List Token) : Except ReadError Node := do
  let fuel := 2 * ts.length + 2
  let (n, r) ← match ts with
    | [] => pure (Node.empty, [])
    | .documentStart :: r => nodeBefore fuel openLimit [.documentStart, .documentEnd] .block r
    | ts => node fuel openLimit .block ts
  match r.dropWhile (· = .documentEnd) with
  | [] => pure n
  | rest => stuck rest

def Node.parse (s : String) : Except ReadError Node := do
  let n ← Node.ofTokens (Token.scan s)
  (n.named false {}).map (·.1)

end ChunkBuild.Yaml
