import ChunkBuild.Proofs.Config.InPlace
import ChunkBuild.Proofs.Config.Plain
import ChunkBuild.Proofs.Host.Frame
/-! # Which layer decides a setting

What is given directly stands over the project's file, that one over the user's file and the environment
below them all. Main statement: each leaf of loaded settings is taken from the first of these that
mentions it, whatever the others say about its section. That holds where the overrides spare the
mappings with several places, which only YAML can write. -/
namespace ChunkBuild.Config

open ChunkBuild.Json ChunkBuild.Text

variable {yaml : YamlReader} {directory file : Option Path} {overrides : Fields Value} {s : Settings}
  {h k : Host}

/-! ## Loading -/

def unlogged (h : Host) : Host := { h with log := [] }

open Job in
theorem keeps_loadFile {p : Path} : Keeps id (loadFileBy yaml p) := by
  have hread : Keeps id (if isYaml p then readYamlText p else readText p) := by
    split
    · refine keeps_readBytes.bind fun bytes => ?_
      split
      · exact .pure _
      · exact .throw _
    · exact keeps_readText
  refine keeps_isFile.bind fun found => ?_
  cases found with
  | false => exact .throw _
  | true =>
    refine hread.outcome.bind fun read => ?_
    split
    · exact .lift _
    · exact .throw _
    · exact .throw _

open Job in
theorem keeps_findFile? {directory : Path} {names : List String} :
    Keeps id (findFile? directory names) := by
  induction names with
  | nil => exact .pure _
  | cons name r ih =>
    refine keeps_isFile.bind fun found => ?_
    cases found with
    | false => exact ih
    | true => exact .pure _

open Job in
theorem keeps_loadProjectFile {directory : Path} {file : Option Path} :
    Keeps id (loadProjectFile yaml directory file) := by
  cases file with
  | some p => exact keeps_loadFile
  | none =>
    refine keeps_findFile?.bind fun found => ?_
    split
    · exact keeps_loadFile
    · exact .pure _

open Job in
theorem keeps_loadUserFile : Keeps unlogged loadUserFile := by
  refine .bind .get fun h => .bind (.lift _) fun home => keeps_exists?.of_id.bind fun found => ?_
  cases found with
  | false => exact .pure _
  | true =>
    refine keeps_loadFile.outcome.of_id.bind fun read => ?_
    split
    · exact .pure _
    · exact .bind (fun _ => rfl) fun _ => .pure _
    · exact .throw _

/-- Looking at the user's file changes nothing but the log. -/
theorem same_of_loadUserFile {user : Layer} (hu : loadUserFile h = .ok user k) :
    k.files = h.files ∧ k.current = h.current ∧ k.environment = h.environment := by
  have hsame : unlogged k = unlogged h := by
    rw [← Job.left_of_ok hu]
    exact keeps_loadUserFile h
  obtain ⟨hf, hc, -, he, -⟩ := Host.mk.inj hsame
  exact ⟨hf, hc, he⟩

theorem usable_eq_ok {layer : Layer} :
    (do
      if !layer.hasTextKeys then throw (.badType "keywords must be strings")
      match ← settings layer.fields with
      | .ok s => pure s
      | .error invalid => throw (invalidConfiguration invalid) : Job Settings) h = .ok s k ↔
    layer.hasTextKeys = true ∧ settings layer.fields h = .ok (.fits s) k := by
  cases hkeys : layer.hasTextKeys with
  | false => exact ⟨(fun hl => nomatch hl), fun hl => nomatch hl.1⟩
  | true =>
    constructor
    · intro hl
      obtain ⟨c, m, hc, hl⟩ := Job.bind_eq_ok.mp hl
      cases c with
      | ok s' =>
        cases hl
        exact ⟨rfl, hc⟩
      | error invalid => cases hl
    · rintro ⟨-, hs⟩
      exact Job.bind_of_ok hs

/-- Settings are loaded from both files, merged under what is given directly. -/
theorem load_eq_ok :
    loadBy yaml directory file overrides h = .ok s k ↔ ∃ user hu project,
      loadUserFile h = .ok user hu ∧
      loadProjectFile yaml (directory.getD h.current) file hu = .ok project hu ∧
      (user.hasTextKeys && project.hasTextKeys) = true ∧
      settings ((Layer.ofFields overrides).mergedOver (project.mergedOver user)).fields hu =
        .ok (.fits s) k := by
  unfold loadBy
  rw [Job.bind_eq_ok]
  refine exists_congr fun user => exists_congr fun hu => ?_
  rw [Job.get_bind]
  constructor
  · rintro ⟨huser, hl⟩
    rw [(same_of_loadUserFile huser).2.1] at hl
    obtain ⟨project, hp, hproject, hlast⟩ := Job.bind_eq_ok.mp hl
    have hsame : hp = hu := (Job.left_of_ok hproject).symm.trans (keeps_loadProjectFile hu)
    rw [hsame] at hproject hlast
    obtain ⟨hkeys, hs⟩ := usable_eq_ok.mp hlast
    have hboth : ((user.hasTextKeys && project.hasTextKeys) && true) = true := hkeys
    rw [Bool.and_true] at hboth
    exact ⟨project, huser, hproject, hboth, hs⟩
  · rintro ⟨project, huser, hproject, hkeys, hs⟩
    refine ⟨huser, ?_⟩
    rw [(same_of_loadUserFile huser).2.1, Job.bind_of_ok hproject]
    exact usable_eq_ok.mpr ⟨(Bool.and_true _).trans hkeys, hs⟩

/-! ## The first layer that mentions a setting -/

/-- What the first of some layers says that mentions a path. -/
def firstSaid (layers : List (Fields Value)) (path : List String) : Option Value :=
  layers.findSome? fun layer => at? layer path

theorem firstSaid_cons (layer : Fields Value) (rest : List (Fields Value)) (path : List String) :
    firstSaid (layer :: rest) path = (at? layer path).or (firstSaid rest path) := by
  rw [firstSaid, List.findSome?_cons]
  cases at? layer path with
  | none => rfl
  | some v => rfl

variable {environment user project : Fields Value}

def layered (environment user project overrides : Fields Value) : Fields Value :=
  merge (merge [] environment) (Naming.recognized {} (merge (merge user project) overrides))

section Merged

variable (hlayer : ∀ fields ∈ [overrides, project, user, environment], IsLayer fields)
  (hmaps : ∀ fields ∈ [overrides, project, user, environment], MapsSections fields)
  (hplain : HasPlainKeys (merge (merge user project) overrides))
include hlayer hmaps hplain

theorem mapsSections_layered : MapsSections (layered environment user project overrides) := by
  simp only [List.forall_mem_cons] at hlayer hmaps
  obtain ⟨hlo, hlp, hlu, hle, -⟩ := hlayer
  obtain ⟨hmo, hmp, hmu, hme, -⟩ := hmaps
  have hmnil : MapsSections [] := fun _ _ _ h => nomatch h
  have hmtop := (hmu.merge hmp hlp.nodup).merge hmo hlo.nodup
  have hltop := ((hlu.merge hlp).merge hlo).recognized hplain
  exact (hmnil.merge hme hle.nodup).merge (hmtop.recognized hplain) hltop.nodup

theorem follows_layered {l : Leaf} (hl : l ∈ leaves) :
    Follows (at? (layered environment user project overrides) l.path)
      (firstSaid [overrides, project, user, environment] l.path) := by
  simp only [List.forall_mem_cons] at hlayer hmaps
  obtain ⟨hlo, hlp, hlu, hle, -⟩ := hlayer
  obtain ⟨hmo, hmp, hmu, hme, -⟩ := hmaps
  have hltop := ((hlu.merge hlp).merge hlo).recognized hplain
  have hmtop := ((hmu.merge hmp hlp.nodup).merge hmo hlo.nodup).recognized hplain
  have hbelow := follows_merge [] hl hle hme
  have hfiles := follows_merge user hl hlp hmp
  have htop := (follows_merge (merge user project) hl hlo hmo).trans (.or (.inl rfl) hfiles)
  have hall := follows_merge (merge [] environment) hl hltop hmtop
  rw [at?_recognized hplain hl] at hall
  have hfirst := hall.trans (.or htop hbelow)
  simp only [Option.or_assoc, at?_nil] at hfirst
  simp only [firstSaid_cons]
  exact hfirst

theorem taken_of_layered
    (hfits : Settings.check (layered environment user project overrides) = .fits s)
    {l : Leaf} (hl : l ∈ leaves) :
    l.Taken s (firstSaid [overrides, project, user, environment] l.path) :=
  have htaken := (check_iff_leaves (mapsSections_layered hlayer hmaps hplain)).mp hfits l hl
  htaken.of_follows hl (follows_layered hlayer hmaps hplain hl)

end Merged

/-- The user's file bears no mark, so a layer over it is merged value by value. -/
theorem fields_mergedOver_user {user project : Layer} {k : Host} (hu : loadUserFile h = .ok user k)
    (hp : (Value.obj project.fields).IsKeyed) :
    (project.mergedOver user).fields = merge user.fields project.fields := by
  obtain ⟨fields, rfl, -⟩ := exists_of_loadUserFile hu
  exact fields_mergedOver hp (spares_of_unmarked (lastMark?_ofFields fields))

/-- Each leaf of loaded settings is taken from the first of the sources that mentions it: what is
given directly, the project's file, the user's file and the environment. -/
theorem leaf_from_first_source (hy : IsKeyedReader yaml) (ho : (Value.obj overrides).IsKeyed)
    (hl : loadBy yaml directory file overrides h = .ok s k) :
    ∃ user hu project, loadUserFile h = .ok user hu ∧
      loadProjectFile yaml (directory.getD h.current) file hu = .ok project hu ∧
      (Spares (project.mergedOver user).items (Layer.ofFields overrides).items →
        (∀ fields ∈ [overrides, project.fields, user.fields], HasPlainKeys fields) →
        ∃ env, environmentFields h = .ok env ∧
          ((∀ fields ∈ [overrides, project.fields, user.fields, env], MapsSections fields) →
            ∀ l ∈ leaves, l.Taken s
              (firstSaid [overrides, project.fields, user.fields, env] l.path))) := by
  obtain ⟨user, hu, project, huser, hproject, -, hs⟩ := load_eq_ok.mp hl
  refine ⟨user, hu, project, huser, hproject, fun hspared hplain => ?_⟩
  simp only [List.forall_mem_cons] at hplain
  obtain ⟨hpo, hpp, hpu, -⟩ := hplain
  have hkeyed := keyed_loadProjectFile hy hproject
  have habove : (Value.obj (Layer.ofFields overrides).fields).IsKeyed := by rwa [fields_ofFields]
  rw [fields_mergedOver habove hspared, fields_mergedOver_user huser hkeyed, fields_ofFields] at hs
  have htop := (hpu.merge hpp).merge hpo
  obtain ⟨env, henv, hfits, -⟩ := (settings_eq_ok htop).mp hs
  have hsame : environmentFields hu = environmentFields h := by
    rw [environmentFields, (same_of_loadUserFile huser).2.2, environmentFields]
  rw [hsame] at henv
  refine ⟨env, henv, fun hmaps l hleaf => ?_⟩
  have hlayer : ∀ fields ∈ [overrides, project.fields, user.fields, env], IsLayer fields := by
    simp only [List.forall_mem_cons]
    exact ⟨isLayer_of_keyed ho, isLayer_of_keyed hkeyed, isLayer_of_keyed (keyed_loadUserFile huser),
      isLayer_ofEnvironment henv, List.forall_mem_nil _⟩
  exact taken_of_layered hlayer hmaps htop hfits.symm hleaf

def layeredHost : Host :=
  { files :=
      [(["p"], .directory), (["u"], .directory), (["u", ".chunklink"], .directory),
        (["u", ".chunklink", "config.json"],
          .file (encodeUtf8 "\x7b\"compiler\": \x7b\"version\": \"1\", \"strict\": true\x7d, \"debug\": true\x7d")),
        (["p", ".chunklink.json"],
          .file (encodeUtf8 "\x7b\"compiler\": \x7b\"version\": \"2\", \"externs\": [\"e.js\"]\x7d\x7d"))]
    current := ⟨.root, ["p"]⟩
    home := ⟨.root, ["u"]⟩
    environment := [("CHUNKLINK_COMPILER__VERSION", "0"), ("CHUNKLINK_COMPILER__COMMAND", "cc")] }

def layeredOverrides : Fields Value := [("compiler", .obj [("version", .str "3")])]

def layeredSettings : Settings :=
  { compiler :=
      { command := "cc", externs := ["e.js"], strict := true, version := some "3" }
    debug := true }

/-- Settings over the same section in three sources, and one flag in the user's file alone. -/
theorem layered_settings_from_first_source : ∃ k, IsKeyedReader readYaml ∧
    (Value.obj layeredOverrides).IsKeyed ∧
    load none none layeredOverrides layeredHost = .ok layeredSettings k ∧
    ∃ user hu project env, loadUserFile layeredHost = .ok user hu ∧
      loadProjectFile readYaml layeredHost.current none hu = .ok project hu ∧
      Spares (project.mergedOver user).items (Layer.ofFields layeredOverrides).items ∧
      environmentFields layeredHost = .ok env ∧
      ∀ l ∈ leaves, l.Taken layeredSettings
        (firstSaid [layeredOverrides, project.fields, user.fields, env] l.path) := by
  have hr : ((load none none layeredOverrides).result layeredHost).toOption =
      some layeredSettings := by decide +kernel
  have hkeyed : (Value.obj layeredOverrides).IsKeyed := by
    have hversion : (Value.obj [("version", .str "3")]).IsKeyed :=
      .obj (by decide) (List.forall_mem_singleton.mpr (.other fun _ h => nomatch h))
    exact .obj (by decide) (List.forall_mem_singleton.mpr hversion)
  obtain ⟨k, hk⟩ := Job.exists_of_result hr
  obtain ⟨user, hu, project, huser, hproject, hfirst⟩ :=
    leaf_from_first_source readYaml_keyed hkeyed hk
  obtain ⟨found, _, hfound, hfile⟩ := Job.bind_eq_ok.mp hproject
  have hafter {α : Type} {f : Job α} {a : α} {m : Host} (ha : f hu = .ok a m) :
      (do
        let user ← loadUserFile
        let a ← f
        pure (user, a)) layeredHost = .ok (user, a) m := by
    rw [Job.bind_of_ok huser]
    exact Job.bind_of_ok ha
  have hgood := Job.of_result (P := fun files : Layer × Layer =>
    ∀ fields ∈ [layeredOverrides, files.2.fields, files.1.fields],
      HasPlainKeys fields ∧ MapsSections fields) (hafter hproject) (by decide +kernel)
  -- both files are in JSON, so that no mapping has several places
  obtain ⟨p, rfl, hjson⟩ := Job.of_result (P := fun files : Layer × Option Path =>
    ∃ p, files.2 = some p ∧ isYaml p = false) (hafter hfound) (by decide +kernel)
  have hspared : Spares (project.mergedOver user).items (Layer.ofFields layeredOverrides).items := by
    obtain ⟨below, rfl, -⟩ := exists_of_loadUserFile huser
    obtain ⟨above, rfl, -⟩ := exists_of_loadFile hjson hfile
    rw [mergedOver_ofFields]
    exact spares_of_unmarked (lastMark?_ofFields _)
  obtain ⟨env, henv, htaken⟩ := hfirst hspared fun fields hf => (hgood fields hf).1
  have hany : (environmentFields layeredHost).toOption.any (fun env => decide (MapsSections env)) =
      true := by decide +kernel
  rw [henv] at hany
  refine ⟨k, readYaml_keyed, hkeyed, hk, user, hu, project, env, huser, hproject, hspared, henv,
    htaken ?_⟩
  simp only [List.forall_mem_cons] at hgood ⊢
  obtain ⟨ho, hp, hu, -⟩ := hgood
  exact ⟨ho.2, hp.2, hu.2, of_decide_eq_true hany, List.forall_mem_nil _⟩

def aliasedHost : Host :=
  { layeredHost with
    files :=
      [(["p"], .directory),
        (["p", ".chunklink.yaml"], .file (encodeUtf8 "resolver: &s\n  command: x\ncompiler: *s\n"))] }

-- What is given for one of the sections is taken for the other one too.
example : ((load none none [("compiler", .obj [("command", .str "y")])]).result
    aliasedHost).toOption.map (fun s => (s.resolver.command, s.compiler.command)) =
      some ("y", "y") := by decide +kernel

end ChunkBuild.Config
