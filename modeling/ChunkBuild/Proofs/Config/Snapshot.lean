import ChunkBuild.Proofs.Config.Shown
/-! # Shown settings are loaded again

A file that shows settings hides the user's file and the environment. Main statement: loaded as an
explicit file, whatever else a host says, it gives the settings that it shows. -/
namespace ChunkBuild

open ChunkBuild.Json ChunkBuild.Text

namespace Config

variable {yaml : YamlReader} {directory file : Option Path}
  {fields overrides user env : Fields Value} {p : Path} {h k m : Host}

theorem loadFile_of_json (yaml : YamlReader) {text : String} (hy : isYaml p = false) (hf : Job.isFile p h = .ok true h)
    (hr : Job.readText p h = .ok text h) (hp : parse text = .ok (.obj fields)) :
    loadFileBy yaml p h = .ok (.ofFields fields) h := by
  have hlayer : layerOfJson p text = .ok (.ofFields fields) := by
    rw [layerOfJson, hp]
    rfl
  rw [loadFileBy, Job.bind_of_ok hf]
  simp only [hy, Bool.not_true, Bool.false_eq_true, if_false]
  rw [Job.bind_of_ok (Job.outcome_of_ok hr)]
  simp only [hlayer]
  rfl

/-- What the user's file says: nothing when there is none, else the mapping that it holds. -/
inductive UserSays (h : Host) : Fields Value → Prop where
  | absent {home : Path} : h.homeDirectory = .ok home →
    Job.exists? (userFile home) h = .ok false h → UserSays h []
  | mapping {home : Path} {content : Bytes} {s : String} {fields : Fields Value} :
    h.homeDirectory = .ok home → h.Has (userFile home) (.file content) →
    decodeUtf8 content = .ok s →
    parse (String.ofList (unifyLineEnds s.toList)) = .ok (.obj fields) → UserSays h fields

theorem UserSays.of_spelled {home : Path} {text : String} (hh : h.homeDirectory = .ok home)
    (hp : h.Has (userFile home) (.file (encodeUtf8 text)))
    (ht : (Value.obj fields).IsSpelledBy text) (hv : (Value.obj fields).IsReadable depthLimit) :
    UserSays h fields := by
  have hplain := ht.plain hv
  obtain ⟨hwhole, hhalf⟩ := isWhole_of_unmarked fun c hc => Nat.lt_trans (hplain c hc).1 (by decide)
  refine .mapping hh hp (decodeUtf8_encodeUtf8 hwhole hhalf) ?_
  rw [unifyLineEnds_of_no_return fun c hc => (hplain c hc).2, String.ofList_toList]
  exact ht.parse_eq hv

theorem loadUserFile_of_says (hu : UserSays h user) : loadUserFile h = .ok (.ofFields user) h := by
  have hstart {home : Path} (hh : h.homeDirectory = .ok home) :
      (Job.lift h.homeDirectory : Job Path) h = .ok home h := by
    rw [hh]
    rfl
  rw [loadUserFile, Job.get_bind]
  cases hu with
  | absent hh he =>
    rw [Job.bind_of_ok (hstart hh), Job.bind_of_ok he]
    rfl
  | mapping hh hp hd hparse =>
    have he : Job.exists? (userFile _) h = .ok true h := Job.bind_of_ok (Job.entryAt?_of_has hp)
    have hl := loadFile_of_json readYaml (isYaml_userFile _) (Job.isFile_of_has hp)
      (Job.readText_of_has hp hd) hparse
    rw [Job.bind_of_ok (hstart hh), Job.bind_of_ok he]
    exact Job.bind_of_ok (Job.outcome_of_ok hl)

theorem exists_of_settings {c : Checked Settings} (hs : settings fields h = .ok c k) :
    ∃ given, c = Settings.check given := by
  unfold settings at hs
  split at hs
  · cases hs
  · dsimp only at hs
    generalize lookup fields "_build_sources" = sources at hs
    cases sources with
    | null =>
      obtain ⟨_, _, -, hs⟩ := Job.bind_eq_ok.mp hs
      obtain ⟨_, _, -, hs⟩ := Job.bind_eq_ok.mp hs
      cases hs
      exact ⟨_, rfl⟩
    | _ =>
      obtain ⟨_, _, -, hs⟩ := Job.bind_eq_ok.mp hs
      cases hs
      exact ⟨_, rfl⟩

theorem isChecked_of_load {c : Settings} (hc : loadBy yaml directory file overrides h = .ok c k) :
    c.IsChecked := by
  obtain ⟨_, _, _, -, -, -, hs⟩ := load_eq_ok.mp hc
  obtain ⟨given, hgiven⟩ := exists_of_settings hs
  exact Settings.isChecked_of_check hgiven.symm

/-- A file that shows settings, whatever the user's file and the environment say. -/
theorem load_of_shown {c : Settings} (hc : c.IsChecked) (hw : c.IsWritable) {text : String}
    (ht : (Value.obj c.toFields).IsSpelledBy text) (hp : h.Has p (.file (encodeUtf8 text)))
    (hy : isYaml p = false) (hu : UserSays h user) (hk : HasPlainKeys user)
    (he : environmentFields h = .ok env) : loadBy yaml directory (some p) [] h = .ok c h := by
  have hread := c.isReadable hw
  have hfile : loadFileBy yaml p h = .ok (.ofFields c.toFields) h :=
    loadFile_of_json yaml hy (Job.isFile_of_has hp) (Job.readText_of_plain (ht.plain hread) hp)
      (ht.parse_eq hread)
  have huser := loadUserFile_of_says hu
  have hkeyed := keyed_loadUserFile huser
  rw [fields_ofFields] at hkeyed
  have hlayer := isLayer_of_keyed hkeyed
  have hfits := check_layered_toFields env hc hlayer hk
  have htop : HasPlainKeys (merge (merge user c.toFields) []) := by
    rw [merge]
    exact hk.merge (hasPlainKeys_toFields c)
  refine load_eq_ok.mpr ⟨_, h, _, huser, hfile, rfl, ?_⟩
  rw [mergedOver_ofFields, mergedOver_ofFields, fields_ofFields]
  exact (settings_eq_ok htop).mpr ⟨env, he, hfits.symm, rfl⟩

/-- Loaded settings that are shown in a file are loaded from it again, on every host. -/
theorem shown_settings_loaded {c : Settings}
    (hc : loadBy yaml directory file overrides h = .ok c k) (hw : c.IsWritable) {text : String}
    (ht : (Value.obj c.toFields).IsSpelledBy text) (hp : m.Has p (.file (encodeUtf8 text)))
    (hy : isYaml p = false) (hu : UserSays m user) (hk : HasPlainKeys user)
    (he : environmentFields m = .ok env) (elsewhere : Option Path) :
    loadBy yaml elsewhere (some p) [] m = .ok c m :=
  load_of_shown (isChecked_of_load hc) hw ht hp hy hu hk he

/-! ## Settings shown on one host and loaded on another -/

def plainHost : Host :=
  { files := [(["p"], .directory)], current := ⟨.root, ["p"]⟩, home := ⟨.root, ["u"]⟩ }

def shownFile : Path := ⟨.relative, ["shown.json"]⟩

def shownText (s : Settings) : String := (Value.obj s.toFields).indented 0 ++ "\n"

theorem shownText_isSpelled (s : Settings) :
    (Value.obj s.toFields).IsSpelledBy (shownText s) := indented_isSpelled _

def outSettings : Settings := { build := { buildDirectory := "out" } }

def outOverrides : Fields Value := [("build", .obj [("build_dir", .str "out")])]

def userFields : Fields Value := [("compiler", .null), ("debug", .bool true)]

def shownHost : Host :=
  { plainHost with
    files :=
      [(["p"], .directory), (["u"], .directory), (["u", ".chunklink"], .directory),
        (["u", ".chunklink", "config.json"],
          .file (encodeUtf8 ((Value.obj userFields).indented 0 ++ "\n"))),
        (["p", "shown.json"], .file (encodeUtf8 (shownText outSettings)))]
    environment := [("CHUNKLINK_BUILD__BUILD_DIR", "elsewhere")] }

theorem out_settings_loaded_again : ∃ k env,
    load none none outOverrides plainHost = .ok outSettings k ∧ outSettings.IsWritable ∧
    (Value.obj outSettings.toFields).IsSpelledBy (shownText outSettings) ∧
    shownHost.Has shownFile (.file (encodeUtf8 (shownText outSettings))) ∧
    isYaml shownFile = false ∧ UserSays shownHost userFields ∧ HasPlainKeys userFields ∧
    environmentFields shownHost = .ok env ∧
    load none (some shownFile) [] shownHost = .ok outSettings shownHost := by
  have hload : ((load none none outOverrides).result plainHost).toOption = some outSettings := by
    decide +kernel
  obtain ⟨k, hk⟩ := Job.exists_of_result hload
  have hwritable : outSettings.IsWritable :=
    Settings.isWritable_of_unmarked (by decide +kernel) (by decide)
  have hspelled := shownText_isSpelled outSettings
  have hhas : shownHost.Has shownFile (.file (encodeUtf8 (shownText outSettings))) :=
    ⟨_, ⟨by decide +kernel, rfl⟩, rfl⟩
  have hyaml : isYaml shownFile = false := by decide
  have huser : UserSays shownHost userFields := by
    refine .of_spelled rfl ⟨_, ⟨by decide +kernel, rfl⟩, rfl⟩ (indented_isSpelled _) ?_
    refine isReadable_obj (show _ = ["compiler", "debug"] from rfl) (by decide) (by decide) ?_
    rw [userFields, List.forall_mem_cons, List.forall_mem_singleton]
    exact ⟨.null, .bool true⟩
  have hplain : HasPlainKeys userFields := by decide +kernel
  have henv : (environmentFields shownHost).toOption.isSome = true := by decide +kernel
  obtain ⟨env, he⟩ := exists_of_isSome henv
  exact ⟨k, env, hk, hwritable, hspelled, hhas, hyaml, huser, hplain, he,
    shown_settings_loaded hk hwritable hspelled hhas hyaml huser hplain he none⟩

def halves : String := String.ofList (ofPoints [0xD83D, 0xDE00])

def halvedSettings : Settings := { build := { buildDirectory := halves } }

def joinedSettings : Settings := { build := { buildDirectory := "😀" } }

def halvedHost : Host :=
  { plainHost with
    files := [(["p"], .directory),
      (["p", "shown.json"], .file (encodeUtf8 (shownText halvedSettings)))] }

theorem shownText_halved : shownText halvedSettings = shownText joinedSettings := by
  have hquoted : stringText halves = stringText "😀" := by decide +kernel
  simp only [shownText, halvedSettings, joinedSettings, Settings.toFields, BuildSettings.toFields,
    Value.indented, indentedFields, hquoted]

/-- Text in JSON writes two halves side by side as it writes the character, which comes back. A file
that is read as YAML gives the halves back where the character was written. -/
theorem halves_loaded_as_one : ∃ k,
    load none none [("build", .obj [("build_dir", .str halves)])] plainHost = .ok halvedSettings k ∧
    halvedHost.Has shownFile (.file (encodeUtf8 (shownText halvedSettings))) ∧
    UserSays halvedHost [] ∧ environmentFields halvedHost = .ok [] ∧
    load none (some shownFile) [] halvedHost = .ok joinedSettings halvedHost ∧
    joinedSettings.toFields ≠ halvedSettings.toFields ∧
    ∃ c, (Yaml.Content.parse (stringText "😀")).toOption = some c ∧ c.item.toValue.str? = some halves := by
  have hload : ((load none none [("build", .obj [("build_dir", .str halves)])]).result
      plainHost).toOption = some halvedSettings := by decide +kernel
  obtain ⟨k, hk⟩ := Job.exists_of_result hload
  have hhas : halvedHost.Has shownFile (.file (encodeUtf8 (shownText halvedSettings))) :=
    ⟨_, ⟨by decide +kernel, rfl⟩, rfl⟩
  have huser : UserSays halvedHost [] := .absent rfl rfl
  have henv : environmentFields halvedHost = .ok [] := rfl
  have hchecked : joinedSettings.IsChecked := ⟨by decide, by decide +kernel⟩
  have hjoined : halvedHost.Has shownFile (.file (encodeUtf8 (shownText joinedSettings))) := by
    rw [← shownText_halved]
    exact hhas
  have hloaded : load none (some shownFile) [] halvedHost = .ok joinedSettings halvedHost :=
    load_of_shown hchecked (Settings.isWritable_of_unmarked (by decide +kernel) (by decide))
      (shownText_isSpelled _) hjoined (by decide) huser (by decide) henv
  have hyaml : ((Yaml.Content.parse (stringText "😀")).toOption.any fun c =>
      decide (c.item.toValue.str? = some halves)) = true := by decide +kernel
  obtain ⟨c, hc, hvalue⟩ := (Option.any_eq_true _ _).mp hyaml
  have hshown : joinedSettings.toFields ≠ halvedSettings.toFields := by
    intro hsame
    have hdirectory := congrArg (fun fields => (at? fields ["build", "build_dir"]).bind (·.str?)) hsame
    have hdiffer : some "😀" ≠ some halves := by decide +kernel
    exact hdiffer hdirectory
  exact ⟨k, hk, hhas, huser, henv, hloaded, hshown, c, hc, of_decide_eq_true hvalue⟩

end Config

end ChunkBuild
