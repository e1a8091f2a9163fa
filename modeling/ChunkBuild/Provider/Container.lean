import ChunkBuild.Provider.Create
/-!
# The container of providers

Which kind of provider each name stands for, the settings they are made from, and the shared ones
that are made already. Changing the settings forgets all of those, registering a shared name anew
the one under that name; a provider that cannot be made leaves the container as it was. A container
takes any kinds of providers; those of a build are the usual ones.
-/
namespace ChunkBuild

open ChunkBuild.Json

structure Registration (κ : Type := ProviderKind) where
  kind : κ
  isShared : Bool := true
  deriving DecidableEq, Repr

structure Instance (ι : Type := Provider) where
  serial : Nat
  provider : ι

def defaultRegistrations : Fields Registration :=
  [("graph_calculator", ⟨.calculator, true⟩), ("resolver_cache", ⟨.cache, true⟩),
    ("compiler", ⟨.compiler, true⟩), ("license_normalizer", ⟨.normalizer, true⟩),
    ("path_transform", ⟨.flattening, true⟩)]

structure Providers (κ : Type := ProviderKind) (ι : Type := Provider) where
  directory : Path
  settings : Value := .obj []
  /-- What the names stand for, the usual providers when nothing else is said. -/
  registered : Fields (Registration κ) := by exact defaultRegistrations
  /-- The shared providers that are made already. -/
  shared : Fields (Instance ι) := []
  made : Nat := 0

namespace Providers

variable {κ ι : Type}

def configure (ps : Providers κ ι) (settings : Value) (directory : Option Path) : Providers κ ι :=
  { ps with settings := settings, directory := directory.getD ps.directory, shared := [] }

def register (ps : Providers κ ι) (name : String) (kind : κ) (isShared : Bool) : Providers κ ι :=
  { ps with
    registered := ps.registered.put name ⟨kind, isShared⟩
    shared := if isShared then ps.shared.erase name else ps.shared }

def settingFields : Value → Except Failure (Fields Value)
  | .obj fields => .ok fields
  | v => .error (.noAttribute ("'" ++ v.kindName ++ "' object has no attribute 'get'"))

def group (ps : Providers κ ι) (name : String) : Except Failure (Fields Value) :=
  (settingFields ps.settings).bind fun groups =>
    match groups.get? name with
    | none => .ok []
    | some v => settingFields v

/-- A setting that is used unless it is null or empty. -/
def valueOrNothing (fields : Fields Value) (key : String) : Material :=
  let v := lookup fields key
  if v.isGiven then .value v else .nothing

def toolSettings (fields : Fields Value) : Fields Value :=
  ["command", "node_command", "min_node_version"].filterMap fun key =>
    match fields.get? key with
    | none | some .null => none
    | some v => some (key, v)

def material (ps : Providers κ ι) (name : String) : Except Failure Material :=
  match name with
  | "graph_calculator" => (ps.group "resolver").map fun g => .tool ps.directory (toolSettings g)
  | "resolver_cache" =>
    (ps.group "resolver").bind fun g =>
      (textSetting "chunks.json" (g.get? "cache_file")).map fun s => .path (ps.directory.child s)
  | "compiler" => (ps.group "compiler").map (valueOrNothing · "command")
  | "license_normalizer" => (ps.group "transform").map (valueOrNothing · "license_holders")
  | "path_transform" => (ps.group "transform").map (valueOrNothing · "flatten_area")
  | _ => .ok .nothing

def make [Makes κ ι] (ps : Providers κ ι) (name : String) (kind : κ) : Except Failure ι :=
  (ps.material name).bind (Makes.make kind)

/-- The provider of a name, made now unless it is shared and made already. -/
def get [Makes κ ι] (ps : Providers κ ι) (name : String) :
    Except Failure (Instance ι × Providers κ ι) :=
  match ps.registered.get? name with
  | none => .error (.badValue ("No provider registered for " ++ name))
  | some r =>
    match if r.isShared then ps.shared.get? name else none with
    | some i => .ok (i, ps)
    | none =>
      (ps.make name r.kind).map fun p =>
        let i : Instance ι := ⟨ps.made, p⟩
        (i, { ps with
          made := ps.made + 1
          shared := if r.isShared then ps.shared.put name i else ps.shared })

end Providers

end ChunkBuild
