import ChunkBuild.Config.Environment
import ChunkBuild.Config.Settings
import Mathlib.Data.List.Forall2
/-! # When settings fit

A section fits exactly when each of its fields is taken from the value that is given for it, or is the
default where none is given. Main statement: all settings are decided by their leaves, one by one. -/
namespace ChunkBuild.Config

open ChunkBuild.Json

variable {α β : Type} {a : α}

namespace Checked

variable {x : Checked α} {P : β → Prop}

/-- The parts of a section one after the other, with what is asked of the whole. -/
theorem exists_seq {f : Checked (α → β)} :
    (∃ b, f <*> x = .fits b ∧ P b) ↔ ∃ g, f = .fits g ∧ ∃ a, x = .fits a ∧ P (g a) := by
  have hseq : f <*> x = both f x := rfl
  rw [hseq]
  constructor
  · rintro ⟨b, hb, hp⟩
    cases f with
    | error e =>
      cases x with
      | error d => cases hb
      | ok a => cases hb
    | ok g =>
      cases x with
      | error d => cases hb
      | ok a =>
        cases hb
        exact ⟨g, rfl, a, rfl, hp⟩
  · rintro ⟨g, rfl, a, rfl, hp⟩
    exact ⟨g a, rfl, hp⟩

theorem exists_map {g : α → β} :
    (∃ b, g <$> x = .fits b ∧ P b) ↔ ∃ a, x = .fits a ∧ P (g a) := by
  have hmap : g <$> x = pure g <*> x := rfl
  rw [hmap, exists_seq]
  constructor
  · rintro ⟨_, hg, a, ha, hp⟩
    cases hg
    exact ⟨a, ha, hp⟩
  · rintro ⟨a, ha, hp⟩
    exact ⟨g, rfl, a, ha, hp⟩

theorem eq_fits_iff : x = .fits a ↔ ∃ b, x = .fits b ∧ b = a :=
  ⟨fun h => ⟨a, h, rfl⟩, fun ⟨_, h, hb⟩ => hb ▸ h⟩

theorem inside_eq_fits {place : Place} : x.inside place = .fits a ↔ x = .fits a := by
  cases x with
  | error e => exact ⟨(fun h => nomatch h), fun h => nomatch h⟩
  | ok b => exact Iff.rfl

end Checked

/-- A setting is the checked value that is given for it, or its default. -/
def Taken (default : α) (check : Value → Checked α) (given : Option Value) (a : α) : Prop :=
  match given with
  | none => a = default
  | some v => check v = .fits a

theorem Taken.elim {default : α} {check : Value → Checked α} {given : Option Value} {P : α → Prop}
    (h : Taken default check given a) (hd : P default)
    (hc : ∀ v, check v = .fits a → P a) : P a := by
  cases given with
  | none =>
    have ha : a = default := h
    rw [ha]
    exact hd
  | some v => exact hc v h

theorem fieldOr_eq_fits {group : Fields Value} {key : String} {default : α}
    {check : Value → Checked α} :
    fieldOr group key default check = .fits a ↔ Taken default check (group.get? key) a := by
  unfold fieldOr Taken
  cases group.get? key with
  | none =>
    constructor
    · intro h
      cases h
      rfl
    · rintro rfl
      rfl
  | some v => exact Checked.inside_eq_fits

theorem checkText_eq_fits {v : Value} {t : String} : checkText v = .fits t ↔ v = .str t := by
  cases v with
  | str s => exact ⟨fun h => by cases h; rfl, fun h => by cases h; rfl⟩
  | _ => exact iff_of_false (fun h => nomatch h) fun h => nomatch h

theorem checkOptionalText_eq_fits {v : Value} {o : Option String} :
    checkOptionalText v = .fits o ↔ v = Value.ofOption .str o := by
  cases v with
  | null => cases o with
    | none => exact iff_of_true rfl rfl
    | some t => exact iff_of_false (fun h => nomatch h) fun h => nomatch h
  | str s => cases o with
    | none => exact iff_of_false (fun h => nomatch h) fun h => nomatch h
    | some t => exact ⟨fun h => by cases h; rfl, fun h => by cases h; rfl⟩
  | _ => cases o <;> exact iff_of_false (fun h => nomatch h) fun h => nomatch h

/-- A list is checked item by item. -/
theorem checkItems_eq_fits {check : Value → Checked α} {position : Nat} {vs : List Value}
    {as : List α} : checkItems check position vs = .fits as ↔
      List.Forall₂ (fun v a => check v = .fits a) vs as := by
  induction vs generalizing position as with
  | nil =>
    rw [List.forall₂_nil_left_iff]
    exact ⟨fun h => by cases h; rfl, fun h => by cases h; rfl⟩
  | cons v r ih =>
    rw [Checked.eq_fits_iff, checkItems, Checked.exists_seq, Checked.exists_map,
      List.forall₂_cons_left_iff]
    simp only [Checked.inside_eq_fits, ih]
    constructor
    · rintro ⟨a, ha, l, hl, rfl⟩
      exact ⟨a, l, ha, hl, rfl⟩
    · rintro ⟨a, l, ha, hl, rfl⟩
      exact ⟨a, ha, l, hl, rfl⟩

/-! ## Leaves -/

/-- A setting that is no section: where it stands, which values it takes, and where it is read. -/
structure Leaf where
  {α : Type}
  path : List String
  check : Value → Checked α
  read : Settings → α

def leaves : List Leaf :=
  [⟨["resolver", "command"], checkText, (·.resolver.command)⟩,
    ⟨["resolver", "node_command"], checkText, (·.resolver.runtime)⟩,
    ⟨["resolver", "min_node_version"], checkCount, (·.resolver.leastVersion)⟩,
    ⟨["resolver", "deps_file"], checkText, (·.resolver.depsFile)⟩,
    ⟨["resolver", "base_js_path"], checkText, (·.resolver.baseFile)⟩,
    ⟨["resolver", "cache_file"], checkText, (·.resolver.cacheFile)⟩,
    ⟨["compiler", "command"], checkText, (·.compiler.command)⟩,
    ⟨["compiler", "externs"], checkList checkText, (·.compiler.externs)⟩,
    ⟨["compiler", "compiled_suffix"], checkText, (·.compiler.compiledSuffix)⟩,
    ⟨["compiler", "namespace_object"], checkBindingName, (·.compiler.namespaceName)⟩,
    ⟨["compiler", "debug"], checkFlag, (·.compiler.debug)⟩,
    ⟨["compiler", "strict"], checkFlag, (·.compiler.strict)⟩,
    ⟨["compiler", "verbose"], checkFlag, (·.compiler.verbose)⟩,
    ⟨["compiler", "version"], checkOptionalText, (·.compiler.version)⟩,
    ⟨["compiler", "version_define"], checkText, (·.compiler.versionDefine)⟩,
    ⟨["transform", "flatten_area"], checkText, (·.transform.area)⟩,
    ⟨["transform", "source_root"], checkText, (·.transform.sourceRoot)⟩,
    ⟨["transform", "license_holders"], checkList checkText, (·.transform.holders)⟩,
    ⟨["build", "build_dir"], checkText, (·.build.buildDirectory)⟩,
    ⟨["build", "staging_dir"], checkText, (·.build.stagingDirectory)⟩,
    ⟨["chunks"], checkList (checkGroup ChunkSettings.check), (·.chunks)⟩,
    ⟨["debug"], checkFlag, (·.debug)⟩]

def sectionOf (fields : Fields Value) (name : String) : Fields Value :=
  match fields.get? name with
  | some (.obj inner) => inner
  | _ => []

/-- What fields say at a path. A path below what is no section leads to nothing. -/
def at? (fields : Fields Value) : List String → Option Value
  | [] => none
  | [key] => fields.get? key
  | name :: path => at? (sectionOf fields name) path

theorem at?_nil : ∀ path, at? [] path = none
  | [] => rfl
  | [_] => rfl
  | _ :: key :: path => at?_nil (key :: path)

def Leaf.Taken (l : Leaf) (s : Settings) (given : Option Value) : Prop :=
  Config.Taken (l.read {}) l.check given (l.read s)

def sectionNames : List String := ["resolver", "compiler", "transform", "build"]

/-- Whether a mapping is given for each section that is mentioned. -/
def MapsSections (fields : Fields Value) : Prop :=
  ∀ name ∈ sectionNames, ∀ v, fields.get? name = some v → ∃ inner, v = .obj inner

instance {fields : Fields Value} : Decidable (MapsSections fields) :=
  decidable_of_iff (∀ name ∈ sectionNames, (match fields.get? name with
    | none | some (.obj _) => true
    | some _ => false) = true) <| by
    refine forall₂_congr fun name _ => ?_
    cases fields.get? name with
    | none => exact iff_of_true rfl fun _ h => nomatch h
    | some v =>
      cases v with
      | obj inner => exact iff_of_true rfl fun _ h => ⟨inner, (Option.some.inj h).symm⟩
      | _ => exact iff_of_false Bool.false_ne_true fun h => nomatch h _ rfl

theorem taken_group {check : Fields Value → Checked α} {default : α} {fields : Fields Value}
    {name : String} (hm : ∀ v, fields.get? name = some v → ∃ inner, v = .obj inner)
    (hd : check [] = .fits default) :
    Taken default (checkGroup check) (fields.get? name) a ↔
      check (sectionOf fields name) = .fits a := by
  unfold sectionOf
  cases hv : fields.get? name with
  | none =>
    rw [hd]
    constructor
    · rintro rfl
      rfl
    · intro h
      cases h
      rfl
  | some v =>
    obtain ⟨inner, rfl⟩ := hm v hv
    exact Iff.rfl

theorem ResolverSettings.check_eq_fits {fields : Fields Value} {s : ResolverSettings} :
    ResolverSettings.check fields = .fits s ↔
      Taken "closure-calculate-chunks" checkText (fields.get? "command") s.command ∧
      Taken "node" checkText (fields.get? "node_command") s.runtime ∧
      Taken 14 checkCount (fields.get? "min_node_version") s.leastVersion ∧
      Taken "./tests/deps.js" checkText (fields.get? "deps_file") s.depsFile ∧
      Taken "./closure/goog/base_minimal.js" checkText (fields.get? "base_js_path") s.baseFile ∧
      Taken "chunks.json" checkText (fields.get? "cache_file") s.cacheFile := by
  rw [Checked.eq_fits_iff]
  simp only [ResolverSettings.check, Checked.exists_seq, Checked.exists_map, fieldOr_eq_fits]
  constructor
  · rintro ⟨_, h₁, _, h₂, _, h₃, _, h₄, _, h₅, _, h₆, rfl⟩
    exact ⟨h₁, h₂, h₃, h₄, h₅, h₆⟩
  · rintro ⟨h₁, h₂, h₃, h₄, h₅, h₆⟩
    exact ⟨_, h₁, _, h₂, _, h₃, _, h₄, _, h₅, _, h₆, rfl⟩

theorem CompilerSettings.check_eq_fits {fields : Fields Value} {s : CompilerSettings} :
    CompilerSettings.check fields = .fits s ↔
      Taken "google-closure-compiler" checkText (fields.get? "command") s.command ∧
      Taken [] (checkList checkText) (fields.get? "externs") s.externs ∧
      Taken "_compressed" checkText (fields.get? "compiled_suffix") s.compiledSuffix ∧
      Taken "$" checkBindingName (fields.get? "namespace_object") s.namespaceName ∧
      Taken false checkFlag (fields.get? "debug") s.debug ∧
      Taken false checkFlag (fields.get? "strict") s.strict ∧
      Taken false checkFlag (fields.get? "verbose") s.verbose ∧
      Taken none checkOptionalText (fields.get? "version") s.version ∧
      Taken "VERSION" checkText (fields.get? "version_define") s.versionDefine := by
  rw [Checked.eq_fits_iff]
  simp only [CompilerSettings.check, Checked.exists_seq, Checked.exists_map, fieldOr_eq_fits]
  constructor
  · rintro ⟨_, h₁, _, h₂, _, h₃, _, h₄, _, h₅, _, h₆, _, h₇, _, h₈, _, h₉, rfl⟩
    exact ⟨h₁, h₂, h₃, h₄, h₅, h₆, h₇, h₈, h₉⟩
  · rintro ⟨h₁, h₂, h₃, h₄, h₅, h₆, h₇, h₈, h₉⟩
    exact ⟨_, h₁, _, h₂, _, h₃, _, h₄, _, h₅, _, h₆, _, h₇, _, h₈, _, h₉, rfl⟩

theorem TransformSettings.check_eq_fits {fields : Fields Value} {s : TransformSettings} :
    TransformSettings.check fields = .fits s ↔
      Taken "core" checkText (fields.get? "flatten_area") s.area ∧
      Taken "./" checkText (fields.get? "source_root") s.sourceRoot ∧
      Taken ["Google LLC", "Massachusetts Institute of Technology"] (checkList checkText)
        (fields.get? "license_holders") s.holders := by
  rw [Checked.eq_fits_iff]
  simp only [TransformSettings.check, Checked.exists_seq, Checked.exists_map, fieldOr_eq_fits]
  constructor
  · rintro ⟨_, h₁, _, h₂, _, h₃, rfl⟩
    exact ⟨h₁, h₂, h₃⟩
  · rintro ⟨h₁, h₂, h₃⟩
    exact ⟨_, h₁, _, h₂, _, h₃, rfl⟩

theorem BuildSettings.check_eq_fits {fields : Fields Value} {s : BuildSettings} :
    BuildSettings.check fields = .fits s ↔
      Taken "build" checkText (fields.get? "build_dir") s.buildDirectory ∧
      Taken "build/.staging" checkText (fields.get? "staging_dir") s.stagingDirectory := by
  rw [Checked.eq_fits_iff]
  simp only [BuildSettings.check, Checked.exists_seq, Checked.exists_map, fieldOr_eq_fits]
  constructor
  · rintro ⟨_, h₁, _, h₂, rfl⟩
    exact ⟨h₁, h₂⟩
  · rintro ⟨h₁, h₂⟩
    exact ⟨_, h₁, _, h₂, rfl⟩

theorem Settings.check_eq_fits {fields : Fields Value} {s : Settings} :
    Settings.check fields = .fits s ↔
      Taken {} (checkGroup ResolverSettings.check) (fields.get? "resolver") s.resolver ∧
      Taken {} (checkGroup CompilerSettings.check) (fields.get? "compiler") s.compiler ∧
      Taken {} (checkGroup TransformSettings.check) (fields.get? "transform") s.transform ∧
      Taken {} (checkGroup BuildSettings.check) (fields.get? "build") s.build ∧
      Taken [] (checkList (checkGroup ChunkSettings.check)) (fields.get? "chunks") s.chunks ∧
      Taken false checkFlag (fields.get? "debug") s.debug := by
  rw [Checked.eq_fits_iff]
  simp only [Settings.check, Checked.exists_seq, Checked.exists_map, fieldOr_eq_fits]
  constructor
  · rintro ⟨_, h₁, _, h₂, _, h₃, _, h₄, _, h₅, _, h₆, rfl⟩
    exact ⟨h₁, h₂, h₃, h₄, h₅, h₆⟩
  · rintro ⟨h₁, h₂, h₃, h₄, h₅, h₆⟩
    exact ⟨_, h₁, _, h₂, _, h₃, _, h₄, _, h₅, _, h₆, rfl⟩

theorem fieldOf_text_eq_fits {group : Fields Value} {key t : String} :
    fieldOf group key checkText = .fits t ↔ lookup group key = .str t := by
  unfold fieldOf lookup
  cases group.get? key with
  | none => exact iff_of_false (fun h => nomatch h) fun h => nomatch h
  | some v => exact Checked.inside_eq_fits.trans checkText_eq_fits

theorem fieldOr_optionalText_eq_fits {group : Fields Value} {key : String} {o : Option String} :
    fieldOr group key none checkOptionalText = .fits o ↔
      lookup group key = Value.ofOption .str o := by
  unfold fieldOr lookup
  cases group.get? key with
  | none => exact checkOptionalText_eq_fits (v := .null)
  | some v => exact Checked.inside_eq_fits.trans checkOptionalText_eq_fits

theorem ChunkSettings.check_eq_fits {fields : Fields Value} {s : ChunkSettings} :
    ChunkSettings.check fields = .fits s ↔
      lookup fields "name" = .str s.name ∧ lookup fields "entry" = .str s.entry ∧
      lookup fields "exports" = .str s.exported ∧
      lookup fields "import_as" = Value.ofOption .str s.importAs ∧
      lookup fields "factory_preamble" = Value.ofOption .str s.preamble ∧
      lookup fields "factory_postamble" = Value.ofOption .str s.postamble := by
  rw [Checked.eq_fits_iff]
  simp only [ChunkSettings.check, Checked.exists_seq, Checked.exists_map, fieldOf_text_eq_fits,
    fieldOr_optionalText_eq_fits]
  constructor
  · rintro ⟨_, h₁, _, h₂, _, h₃, _, h₄, _, h₅, _, h₆, rfl⟩
    exact ⟨h₁, h₂, h₃, h₄, h₅, h₆⟩
  · rintro ⟨h₁, h₂, h₃, h₄, h₅, h₆⟩
    exact ⟨_, h₁, _, h₂, _, h₃, _, h₄, _, h₅, _, h₆, rfl⟩

/-- Settings are decided by their leaves. -/
theorem check_iff_leaves {fields : Fields Value} {s : Settings} (hm : MapsSections fields) :
    Settings.check fields = .fits s ↔ ∀ l ∈ leaves, l.Taken s (at? fields l.path) := by
  have hresolver : ResolverSettings.check [] = .fits {} := rfl
  have hcompiler : CompilerSettings.check [] = .fits {} := rfl
  have htransform : TransformSettings.check [] = .fits {} := rfl
  have hbuild : BuildSettings.check [] = .fits {} := rfl
  rw [Settings.check_eq_fits, taken_group (hm "resolver" (by decide)) hresolver,
    taken_group (hm "compiler" (by decide)) hcompiler,
    taken_group (hm "transform" (by decide)) htransform,
    taken_group (hm "build" (by decide)) hbuild, ResolverSettings.check_eq_fits,
    CompilerSettings.check_eq_fits, TransformSettings.check_eq_fits, BuildSettings.check_eq_fits]
  simp only [leaves, List.forall_mem_cons, Leaf.Taken, at?, List.not_mem_nil, false_implies,
    implies_true, and_true, and_assoc]

/-- No leaf takes a section. -/
theorem leaf_rejects_section :
    ∀ l ∈ leaves, ∀ (inner : Fields Value) (a : l.α), l.check (.obj inner) ≠ .fits a := by
  simp only [leaves, List.forall_mem_cons]
  refine ⟨?_, ?_, ?_, ?_, ?_, ?_, ?_, ?_, ?_, ?_, ?_, ?_, ?_, ?_, ?_, ?_, ?_, ?_, ?_, ?_, ?_, ?_,
    List.forall_mem_nil _⟩
  all_goals exact fun _ _ h => nomatch h

theorem leaf_path : ∀ l ∈ leaves, (∃ name ∈ sectionNames, ∃ key, l.path = [name, key]) ∨
    ∃ key ∈ settingNames, l.path = [key] := by
  simp [leaves, sectionNames, settingNames, groups]

end ChunkBuild.Config
