import ChunkBuild.Host.Basic
/-!
# Working with files

The file operations of a build. Paths start at the current directory unless they are absolute, and
a failure names the path as it was given.
-/
namespace ChunkBuild

open ChunkBuild.Text

def pathLimit : Nat := 4096

def Host.locate (h : Host) (p : Path) : Except FileProblem Location :=
  if pathLimit ≤ (systemBytes p.text).length then .error .nameTooLong
  else h.files.walk (if p.isAbsolute then [] else h.current.parts) p.parts

def pathProblem? (s : String) : Option Failure :=
  match systemProblem? s, s.toList.contains '\x00' with
  | some p, _ => some (.unencodable p.message)
  | none, true => some (.badValue "embedded null byte")
  | none, false => none

def encoded (s : String) : Except Failure Bytes :=
  match halfProblemFrom? false 0 (points s.toList) with
  | some p => .error (.unencodable p.message)
  | none => .ok (encodeUtf8 s)

namespace Job

def fault (problem : FileProblem) (p : Path) : Job α :=
  throw (.file { problem := problem, path := p.text })

/-- The entry to which a path leads; none stands at what cannot be a path. That a name is too long
is a failure all the same. -/
def entryAt? (p : Path) : Job (Option Entry) := do
  match pathProblem? p.text, (← get).locate p with
  | some _, _ => pure none
  | none, .error .nameTooLong => fault .nameTooLong p
  | none, .error _ => pure none
  | none, .ok loc => return (← get).files.at? loc

def exists? (p : Path) : Job Bool := return (← entryAt? p).isSome

def isFile (p : Path) : Job Bool :=
  return match ← entryAt? p with
    | some (.file _) => true
    | _ => false

def isDirectory (p : Path) : Job Bool :=
  return match ← entryAt? p with
    | some .directory => true
    | _ => false

def namesIn (p : Path) : Job (List String) := do
  let h ← get
  match h.locate p with
  | .error _ => pure []
  | .ok loc => pure ((h.files.below loc).filterMap fun x =>
      match x.1 with
      | [name] => some name
      | _ => none)

def checkPathText (s : String) : Job Unit :=
  match pathProblem? s with
  | some e => throw e
  | none => pure ()

def atPlace (p : Path) (f : FileTree → Location → Except FileProblem (α × FileTree)) : Job α := do
  checkPathText p.text
  let h ← get
  match h.locate p with
  | .error e => fault e p
  | .ok loc =>
    match f h.files loc with
    | .error e => fault e p
    | .ok (a, files) =>
      set { h with files := files }
      pure a

def readBytes (p : Path) : Job Bytes := atPlace p fun t loc => (t.read loc).map (·, t)

def writeBytes (p : Path) (content : Bytes) : Job Unit :=
  atPlace p fun t loc => (t.write loc content).map ((), ·)

def writeText (p : Path) (s : String) : Job Unit := writeBytes p (encodeUtf8 s)

def decoded (bytes : Bytes) : Job String :=
  match decodeUtf8 bytes with
  | .ok s => pure s
  | .error e => throw (.undecodable e.message)

def readRaw (p : Path) : Job String := do decoded (← readBytes p)

def readText (p : Path) : Job String := do
  let s ← readRaw p
  pure (String.ofList (unifyLineEnds s.toList))

/-- The text of a file at a path's text, where a slash at the end asks for a directory. -/
def readRawAt (s : String) : Job String := do
  checkPathText s
  let h ← get
  let here := if startsWith "/" s then [] else h.current.parts
  let failed (e : FileProblem) : Job String := throw (.file { problem := e, path := s })
  if s.isEmpty then failed .notFound
  else if pathLimit ≤ (systemBytes s).length then failed .nameTooLong
  else match (h.files.walk here (split "/" s)).bind h.files.read with
    | .error e => failed e
    | .ok bytes => decoded bytes

def makeDirectory (p : Path) : Job Unit :=
  atPlace p fun t loc => (t.makeDirectory loc).map ((), ·)

/-- Makes a directory whose parent stands; one that is there already will do. -/
def ensureDirectory (p : Path) : Job Unit := do
  match ← (makeDirectory p).outcome with
  | .ok () => pure ()
  | .error (.file f) =>
    if f.problem ≠ .notFound && (← isDirectory p) then pure () else throw (.file f)
  | .error e => throw e

/-- Makes a directory and those above it that are missing, `rest` being the parts of the path from
the last one on. -/
def ensureDirectoriesFrom (anchor : Anchor) : (rest : List String) → Job Unit
  | [] => ensureDirectory ⟨anchor, []⟩
  | name :: rest => do
    let p : Path := ⟨anchor, (name :: rest).reverse⟩
    match ← (ensureDirectory p).outcome with
    | .ok () => pure ()
    | .error (.file f) =>
      if f.problem = .notFound then
        ensureDirectoriesFrom anchor rest
        ensureDirectory p
      else throw (.file f)
    | .error e => throw e

def ensureDirectories (p : Path) : Job Unit := ensureDirectoriesFrom p.anchor p.parts.reverse

def makeDirectories (p : Path) : Job Unit := do
  match ← (makeDirectory p).outcome with
  | .ok () => pure ()
  | .error (.file f) =>
    if f.problem = .notFound && !p.parts.isEmpty then
      ensureDirectories p.parent
      makeDirectory p
    else throw (.file f)
  | .error e => throw e

/-- Removes a directory with everything below it. What lies below goes first; when the path led
through it, it leads nowhere then, and the empty directory stays. -/
def removeTree (p : Path) : Job Unit := do
  checkPathText p.text
  let h ← get
  match h.locate p with
  | .error e => fault e p
  | .ok loc =>
    match h.files.at? loc with
    | none => fault .notFound p
    | some (.file _) =>
      throw (.file { problem := .notDirectory, path := p.text, asObject := true })
    | some .directory =>
      set { h with files := h.files.clear loc }
      atPlace p fun t loc => .ok ((), t.remove loc)

def remove (p : Path) : Job Unit := do
  if ← isDirectory p then removeTree p
  else atPlace p fun t loc =>
    match t.at? loc with
    | none => .error .notFound
    | some _ => .ok ((), t.remove loc)

def endsInName (p : Path) : Bool := !p.name.isEmpty && p.name ≠ ".."

def rename (source target : Path) : Job Unit := do
  checkPathText source.text
  checkPathText target.text
  let h ← get
  let moved : Except FileProblem FileTree := do
    let a ← h.locate source
    let b ← h.locate target
    if endsInName source && endsInName target then h.files.rename a b else .error .busy
  match moved with
  | .ok files => set { h with files := files }
  | .error e =>
    throw (.file { problem := e, path := source.text, target := some target.text })

/-- The absolute path of a path, by text alone. -/
def resolved (p : Path) : Job Path := do
  checkPathText p.text
  return p.resolve (← get).current

end Job

end ChunkBuild
