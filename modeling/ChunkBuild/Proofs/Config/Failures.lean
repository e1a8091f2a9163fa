import ChunkBuild.Proofs.Config.Files
import ChunkBuild.Proofs.Json.Content
/-! # How loading settings fails

A file of settings that cannot be used is a failure of the configuration, and the user's file is left out
then. That holds for files of malformed text and of wrong shape. Bytes that are no text, integers out of
bounds and values too deep in others break off loading with failures of their own, the user's file
included, and so does what stands around the settings where it cannot be read. Main statement: loading
fails otherwise than with a failure of the configuration exactly where something breaks it off. -/
namespace ChunkBuild

open ChunkBuild.Json ChunkBuild.Text

def Failure.IsConfiguration : Failure → Prop
  | .error e => match e.kind with
    | .configuration _ _ _ _ => True
    | _ => False
  | _ => False

namespace Config

theorem not_isConfiguration_of_isForeign {e : Failure} (he : e.IsForeign) :
    ¬ e.IsConfiguration := by
  intro hc
  cases e with
  | error b => exact he b rfl
  | _ => exact hc

/-! ## Files -/

def mapping? (bytes : Bytes) : Option (Fields Value) :=
  match writtenValue? bytes with
  | some (.obj fields) => some fields
  | _ => none

inductive Given : Option Failure → Option (Fields Value) → Except Failure Layer → Prop where
  | mapping {fields : Fields Value} : Given none (some fields) (.ok (.ofFields fields))
  | nothing : Given none none (.ok {})
  | unusable {p : Path} {reason : String} : Given none none (.error (unusableFile p reason))
  | brokenOff {e : Failure} : Given (some e) none (.error e)

variable {yaml : YamlReader} {directory file : Option Path} {overrides : Fields Value} {p : Path}
  {bytes : Bytes} {h k : Host} {e : Failure}

theorem given_layerOfContent (hy : isYaml p = false) (bytes : Bytes) :
    Given (breakOff? bytes) (mapping? bytes) (layerOfContent yaml p bytes) := by
  rw [layerOfContent, hy, breakOff?, mapping?, writtenValue?]
  simp only [Bool.false_eq_true, if_false]
  cases decodeUtf8 bytes with
  | error problem => exact .brokenOff
  | ok text =>
    have halike := parse_unifyLineEnds text
    dsimp only
    rw [layerOfJson]
    generalize parse text = x at halike
    generalize parse (String.ofList (unifyLineEnds text.toList)) = y at halike
    cases halike with
    | @read v =>
      cases v with
      | null => exact .nothing
      | obj fields => exact .mapping
      | _ => exact .unusable
    | malformed => exact .unusable
    | @stopped stop =>
      cases stop with
      | malformed => exact .unusable
      | integer => exact .brokenOff
      | tooDeep => exact .brokenOff

def breakOffAt? (h : Host) (p : Path) : Option Failure :=
  match (Job.entryAt? p).result h with
  | .error e => some e
  | .ok (some (.file bytes)) => breakOff? bytes
  | .ok _ => none

def writtenMapping? (h : Host) (p : Path) : Option (Fields Value) :=
  match (Job.entryAt? p).result h with
  | .ok (some (.file bytes)) => mapping? bytes
  | _ => none

theorem given_loadFile (yaml : YamlReader) (hy : isYaml p = false) (h : Host) :
    Given (breakOffAt? h p) (writtenMapping? h p) ((loadFileBy yaml p).result h) := by
  rw [result_loadFile, breakOffAt?, writtenMapping?]
  cases (Job.entryAt? p).result h with
  | error e => exact .brokenOff
  | ok entry =>
    match entry with
    | none => exact .unusable
    | some .directory => exact .unusable
    | some (.file bytes) => exact given_layerOfContent hy bytes

/-- What breaks off reading is no error of the program. -/
theorem isForeign_of_breakOffAt (hb : breakOffAt? h p = some e) : e.IsForeign := by
  unfold breakOffAt? at hb
  split at hb
  · next e hentry =>
    cases hb
    exact Job.looks_entryAt?.foreign h _ hentry
  · unfold breakOff? at hb
    split at hb
    · cases hb
      exact fun _ => Failure.noConfusion
    · split at hb
      · cases hb
        exact fun _ => Failure.noConfusion
      · cases hb
        exact fun _ => Failure.noConfusion
      · cases hb
  · cases hb

/-! ## Both files -/

/-- There is no home directory exactly where the environment gives one that begins with a tilde. -/
theorem homeDirectory_eq_error_iff : h.homeDirectory = .error e ↔
    e = .homeless ∧ ∃ s, h.environment.get? homeVariable = some s ∧ startsWith "~" s = true := by
  rw [Host.homeDirectory]
  cases h.environment.get? homeVariable with
  | none =>
    constructor
    · intro he
      cases he
    · rintro ⟨-, _, hs, -⟩
      cases hs
  | some s =>
    dsimp only
    split
    · next hs =>
      constructor
      · rintro ⟨⟩
        exact ⟨rfl, s, rfl, hs⟩
      · rintro ⟨rfl, -⟩
        rfl
    · next hs =>
      have hno : ¬ ∃ t, some s = some t ∧ startsWith "~" t = true := by
        rintro ⟨_, ⟨⟩, ht⟩
        exact hs ht
      split
      · refine ⟨fun he => ?_, fun he => absurd he.2 hno⟩
        cases he
      · refine ⟨fun he => ?_, fun he => absurd he.2 hno⟩
        cases he

def userBreakOff? (h : Host) : Option Failure :=
  match h.homeDirectory with
  | .error e => some e
  | .ok home => breakOffAt? h (userFile home)

def userMapping? (h : Host) : Option (Fields Value) :=
  match h.homeDirectory with
  | .error _ => none
  | .ok home => writtenMapping? h (userFile home)

section Home

variable {home : Path} (hh : h.homeDirectory = .ok home)
include hh

theorem userBreakOff?_of_home : userBreakOff? h = breakOffAt? h (userFile home) := by
  rw [userBreakOff?, hh]

theorem userMapping?_of_home : userMapping? h = writtenMapping? h (userFile home) := by
  rw [userMapping?, hh]

end Home

/-- The user's file gives its mapping, or nothing, unless finding or reading it breaks off. -/
theorem result_loadUserFile_eq (h : Host) : loadUserFile.result h =
    match userBreakOff? h with
    | some e => .error e
    | none => .ok (.ofFields ((userMapping? h).getD [])) := by
  rw [result_loadUserFile, userBreakOff?, userMapping?]
  cases h.homeDirectory with
  | error e => rfl
  | ok home =>
    have hgiven := given_loadFile readYaml (isYaml_userFile home) h
    have hforeign {e : Failure} (he : breakOffAt? h (userFile home) = some e) :=
      isForeign_of_breakOffAt he
    rw [result_loadFile] at hgiven
    dsimp only [Except.bind]
    cases hs : (Job.entryAt? (userFile home)).result h with
    | error e => rw [breakOffAt?, hs]
    | ok entry =>
      cases entry with
      | none => rw [breakOffAt?, writtenMapping?, hs]; rfl
      | some entry =>
        rw [hs] at hgiven
        simp only [Except.bind, userLayerAt] at hgiven ⊢
        generalize layerAt readYaml (userFile home) (some entry) = r at hgiven
        generalize breakOffAt? h (userFile home) = broken at hgiven hforeign
        generalize writtenMapping? h (userFile home) = given at hgiven
        cases hgiven with
        | mapping => rfl
        | nothing => rfl
        | unusable => rfl
        | @brokenOff e =>
          cases e with
          | error b => exact absurd rfl (hforeign rfl b)
          | _ => rfl

theorem isForeign_of_userBreakOff (hb : userBreakOff? h = some e) : e.IsForeign := by
  unfold userBreakOff? at hb
  split at hb
  · next e hhome =>
    cases hb
    exact outside_homeDirectory h _ hhome
  · exact isForeign_of_breakOffAt hb

def projectBreakOff? (h : Host) (directory : Path) (file : Option Path) : Option Failure :=
  match (projectFile directory file).result h with
  | .error e => some e
  | .ok found => found.bind (breakOffAt? h)

def projectMapping? (h : Host) (directory : Path) (file : Option Path) : Option (Fields Value) :=
  match (projectFile directory file).result h with
  | .error _ => none
  | .ok found => found.bind (writtenMapping? h)

/-- The project's file gives its mapping, or nothing where there is none. -/
theorem given_loadProjectFile (yaml : YamlReader)
    (hjson : ∀ q, (projectFile p file).result h = .ok (some q) → isYaml q = false) :
    Given (projectBreakOff? h p file) (projectMapping? h p file)
      ((loadProjectFile yaml p file).result h) := by
  rw [result_loadProjectFile, projectBreakOff?, projectMapping?]
  cases hf : (projectFile p file).result h with
  | error e => exact .brokenOff
  | ok found =>
    cases found with
    | none => exact .nothing
    | some q => exact given_loadFile yaml (hjson q hf) h

theorem isForeign_of_projectBreakOff (hb : projectBreakOff? h p file = some e) : e.IsForeign := by
  unfold projectBreakOff? at hb
  split at hb
  · next e hfind =>
    cases hb
    exact looks_projectFile.foreign h _ hfind
  · obtain ⟨q, -, hq⟩ := Option.bind_eq_some_iff.mp hb
    exact isForeign_of_breakOffAt hq

/-- Which file a project has is a matter of what stands at the places where it is looked for. -/
theorem result_findFile?_congr {names : List String} (hsame : ∀ name ∈ names,
      (Job.entryAt? (p.child name)).result k = (Job.entryAt? (p.child name)).result h) :
    (findFile? p names).result k = (findFile? p names).result h := by
  induction names with
  | nil => rfl
  | cons name r ih =>
    obtain ⟨hname, hr⟩ := List.forall_mem_cons.mp hsame
    rw [findFile?, Job.keeps_isFile.result_bind, Job.keeps_isFile.result_bind, Job.isFile,
      Job.keeps_entryAt?.result_bind, Job.keeps_entryAt?.result_bind, hname]
    congr 1
    funext isThere
    cases isThere with
    | false => exact ih hr
    | true => rfl

theorem mem_of_findFile? {names : List String} {q : Path}
    (hf : (findFile? p names).result h = .ok (some q)) : q ∈ names.map p.child := by
  induction names with
  | nil => cases hf
  | cons name r ih =>
    rw [findFile?, Job.keeps_isFile.result_bind] at hf
    obtain ⟨isThere, -, hf⟩ := except_bind_eq_ok.mp hf
    cases isThere with
    | false => exact List.mem_cons_of_mem _ (ih hf)
    | true =>
      cases hf
      exact List.mem_cons_self

def places (directory : Path) : (file : Option Path) → List Path
  | some p => [p]
  | none => projectFileNames.map directory.child

theorem result_loadProjectFile_congr
    (hsame : ∀ q ∈ places p file, (Job.entryAt? q).result k = (Job.entryAt? q).result h) :
    (loadProjectFile yaml p file).result k = (loadProjectFile yaml p file).result h := by
  have hload {q : Path} (hq : q ∈ places p file) :
      (loadFileBy yaml q).result k = (loadFileBy yaml q).result h := by
    rw [result_loadFile, result_loadFile, hsame q hq]
  cases file with
  | some q => exact hload List.mem_cons_self
  | none =>
    rw [loadProjectFile, keeps_findFile?.result_bind, keeps_findFile?.result_bind,
      result_findFile?_congr fun name hn => hsame _ (List.mem_map_of_mem hn)]
    cases hfind : (findFile? p projectFileNames).result h with
    | error e => rfl
    | ok found =>
      cases found with
      | none => rfl
      | some q => exact hload (mem_of_findFile? hfind)

/-! ## Loading -/

def ended : Checked Settings → Except Failure Settings
  | .ok s => .ok s
  | .error invalid => .error (invalidConfiguration invalid)

theorem load_of_user_error (hu : loadUserFile.result h = .error e) :
    (loadBy yaml directory file overrides).result h = .error e := by
  cases hx : loadUserFile h with
  | ok user k =>
    rw [Job.result_of_ok hx] at hu
    cases hu
  | error e' k =>
    rw [Job.result_of_error hx] at hu
    cases hu
    exact Job.result_of_error (Job.bind_of_error hx)

theorem scene_of_loadUserFile {user : Layer} (hu : loadUserFile h = .ok user k) :
    k.scene = h.scene := by
  have hsame : unlogged (loadUserFile.left h) = unlogged h := keeps_loadUserFile h
  rw [Job.left_of_ok hu] at hsame
  have hscene : (unlogged k).scene = (unlogged h).scene := by rw [hsame]
  exact hscene

/-- Loading once the user's file was read. Reading it adds to the log, at which nothing looks. -/
theorem load_of_user (directory file : Option Path) (overrides : Fields Value) {user : Layer}
    (hu : loadUserFile.result h = .ok user) : (loadBy yaml directory file overrides).result h =
      ((loadProjectFile yaml (directory.getD h.current) file).result h).bind fun project =>
        if (user.hasTextKeys && project.hasTextKeys) = true then
          ((settings ((Layer.ofFields overrides).mergedOver (project.mergedOver user)).fields).result
            h).bind ended
        else .error (.badType "keywords must be strings") := by
  cases hx : loadUserFile h with
  | error e k =>
    rw [Job.result_of_error hx] at hu
    cases hu
  | ok user' k =>
    rw [Job.result_of_ok hx] at hu
    cases hu
    have hscene := scene_of_loadUserFile hx
    obtain ⟨hf, hc, -⟩ := Job.same_of_scene hscene
    rw [loadBy, Job.result, Job.bind_of_ok hx, Job.get_bind, hc, ← Job.result,
      keeps_loadProjectFile.result_bind,
      result_loadProjectFile_congr fun q _ => Job.result_entryAt?_of_same hf hc]
    congr 1
    funext project
    have hall : ((Layer.ofFields overrides).mergedOver (project.mergedOver user)).hasTextKeys =
        (user.hasTextKeys && project.hasTextKeys) := Bool.and_true _
    dsimp only
    rw [hall]
    cases hkeys : user.hasTextKeys && project.hasTextKeys with
    | false => rfl
    | true =>
      simp only [Bool.not_true, Bool.false_eq_true, if_false, if_true]
      rw [← (looks_settings _).same hscene]
      refine Job.result_bind fun c m => ?_
      cases c with
      | ok s => rfl
      | error invalid => rfl

theorem settings_of_reserved {fields : Fields Value} (hr : fields.has reservedKey = true) :
    (settings fields).result h =
      .error (.badType ("the key " ++ reservedKey ++ " is reserved")) := by
  rw [settings, if_pos hr]
  rfl

/-- Under plain keys only the environment can break off making settings. -/
theorem result_settings_of_plain {fields : Fields Value} (hp : HasPlainKeys fields) :
    (settings fields).result h = (environmentFields h).map fun env =>
      Settings.check (merge (merge [] env) (Naming.recognized {} fields)) := by
  have hreserved : fields.has reservedKey = false := by
    rw [Fields.has, hp.get?_eq_none (by decide)]
    rfl
  have houtside := surrounding_of_plain (h := h) hp
  unfold settings
  rw [hreserved, if_neg Bool.false_ne_true, hp.lookup_eq_null (by decide)]
  dsimp only
  rw [hp.naming, Job.result, Job.bind_of_ok Job.lift_ok]
  cases henv : environmentFields h with
  | ok env =>
    rw [henv] at houtside
    rw [Job.bind_of_ok houtside]
    rfl
  | error e =>
    rw [henv] at houtside
    rw [Job.bind_of_error houtside]
    rfl

/-! ## Failures -/

theorem Given.layer_eq {broken : Option Failure} {given : Option (Fields Value)} {l : Layer}
    (hg : Given broken given (.ok l)) : l = .ofFields (given.getD []) := by
  cases hg with
  | mapping => rfl
  | nothing => rfl

theorem Given.failsOnly {given : Option (Fields Value)} {r : Except Failure Layer}
    (hg : Given none given r) : FailsOnly Failure.IsConfiguration r := by
  cases hg with
  | mapping => exact .ok _
  | nothing => exact .ok _
  | unusable => exact .error trivial

theorem Given.eq_error {given : Option (Fields Value)} {r : Except Failure Layer}
    (hg : Given (some e) given r) : r = .error e := by
  cases hg with
  | brokenOff => rfl

theorem failsOnly_ended (c : Checked Settings) : FailsOnly Failure.IsConfiguration (ended c) := by
  cases c with
  | ok s => exact .ok s
  | error invalid => exact .error trivial

/-- The fields that both files and the overrides give. -/
def givenFields (h : Host) (directory file : Option Path) (overrides : Fields Value) :
    Fields Value :=
  merge (merge ((userMapping? h).getD [])
    ((projectMapping? h (directory.getD h.current) file).getD [])) overrides

/-- What breaks off loading: finding or reading the user's file, else the project's one, else making
settings of what is given. -/
inductive BrokenOff (yaml : YamlReader) (h : Host) (directory file : Option Path)
    (overrides : Fields Value) : Failure → Prop where
  | user {e : Failure} : userBreakOff? h = some e → BrokenOff yaml h directory file overrides e
  | project {e : Failure} : userBreakOff? h = none →
    projectBreakOff? h (directory.getD h.current) file = some e →
    BrokenOff yaml h directory file overrides e
  | settings {e : Failure} {l : Layer} : userBreakOff? h = none →
    (loadProjectFile yaml (directory.getD h.current) file).result h = .ok l →
    (settings (givenFields h directory file overrides)).result h = .error e →
    BrokenOff yaml h directory file overrides e

/-- Without marks the layers of both files and the overrides are merged value by value. -/
theorem fields_mergedOver_ofFields (user project overrides : Fields Value) :
    ((Layer.ofFields overrides).mergedOver ((Layer.ofFields project).mergedOver (.ofFields user))).fields =
      merge (merge user project) overrides := by
  rw [mergedOver_ofFields, mergedOver_ofFields, fields_ofFields]

/-- Loading when nothing breaks off reading the user's file. -/
theorem result_load (directory file : Option Path) (overrides : Fields Value)
    (hjson : ∀ p, (projectFile (directory.getD h.current) file).result h = .ok (some p) →
      isYaml p = false) (hu : userBreakOff? h = none) :
    (loadBy yaml directory file overrides).result h =
      ((loadProjectFile yaml (directory.getD h.current) file).result h).bind fun _ =>
        ((settings (givenFields h directory file overrides)).result h).bind ended := by
  have huser := result_loadUserFile_eq h
  rw [hu] at huser
  rw [load_of_user directory file overrides huser]
  have hgiven := given_loadProjectFile yaml hjson
  cases hl : (loadProjectFile yaml (directory.getD h.current) file).result h with
  | error e => rfl
  | ok l =>
    rw [hl] at hgiven
    rw [givenFields, hgiven.layer_eq, ← fields_mergedOver_ofFields]
    rfl

theorem load_error_iff (hjson : ∀ p,
      (projectFile (directory.getD h.current) file).result h = .ok (some p) → isYaml p = false) :
    (loadBy yaml directory file overrides).result h = .error e ∧ ¬ e.IsConfiguration ↔
      BrokenOff yaml h directory file overrides e := by
  have hgiven := given_loadProjectFile yaml hjson
  constructor
  · rintro ⟨hload, hno⟩
    cases hu : userBreakOff? h with
    | some e' =>
      have huser := result_loadUserFile_eq h
      rw [hu] at huser
      rw [load_of_user_error huser] at hload
      cases hload
      exact .user hu
    | none =>
      rw [result_load _ _ _ hjson hu] at hload
      cases hl : (loadProjectFile yaml (directory.getD h.current) file).result h with
      | error e' =>
        rw [hl] at hload hgiven
        cases hload
        cases hp : projectBreakOff? h (directory.getD h.current) file with
        | none =>
          rw [hp] at hgiven
          exact absurd (hgiven.failsOnly e rfl) hno
        | some e' =>
          rw [hp] at hgiven
          cases hgiven.eq_error
          exact .project hu hp
      | ok l =>
        rw [hl] at hload
        cases hs : (settings (givenFields h directory file overrides)).result h with
        | error e' =>
          rw [hs] at hload
          cases hload
          exact .settings hu hl hs
        | ok c =>
          rw [hs] at hload
          exact absurd (failsOnly_ended c e hload) hno
  · intro hbroken
    cases hbroken with
    | user hu =>
      have huser := result_loadUserFile_eq h
      rw [hu] at huser
      exact ⟨load_of_user_error huser, not_isConfiguration_of_isForeign (isForeign_of_userBreakOff hu)⟩
    | project hu hp =>
      rw [hp] at hgiven
      rw [result_load _ _ _ hjson hu, hgiven.eq_error]
      exact ⟨rfl, not_isConfiguration_of_isForeign (isForeign_of_projectBreakOff hp)⟩
    | settings hu hl hs =>
      rw [result_load _ _ _ hjson hu, hl]
      refine ⟨?_, not_isConfiguration_of_isForeign ((looks_settings _).foreign h e hs)⟩
      exact congrArg (Except.bind · ended) hs

/-! ## Without the user's file -/

variable {loc : Location}

theorem getLast?_child (directory : Path) {text name : String}
    (hn : Path.ofText text = ⟨.relative, [name]⟩) :
    (directory.child text).parts.getLast? = some name := by
  rw [Path.child, hn]
  exact List.getLast?_concat

theorem getLast?_of_leadsTo_userFile {home : Path} (hl : h.LeadsTo (userFile home) loc) :
    loc.getLast? = some "config.json" := by
  have hlast := getLast?_child (home.child ".chunklink")
    (show Path.ofText "config.json" = ⟨.relative, ["config.json"]⟩ by decide)
  exact hl.getLast? hlast rfl (by decide)

/-- No file in a project's directory that is looked for has the name of the user's file. -/
theorem not_leadsTo_of_projectFileNames (hl : loc.getLast? = some "config.json") {name : String}
    (hn : name ∈ projectFileNames) (directory : Path) : ¬ h.LeadsTo (directory.child name) loc := by
  intro hp
  have hother {c : Char} (hof : Path.ofText name = ⟨.relative, [name]⟩)
      (hc : name.toList.getLast? = some c) (hdot : c ≠ '.') (hne : systemText name ≠ "config.json") :
      False :=
    hne (Option.some.inj ((hp.getLast? (getLast?_child _ hof) hc hdot).symm.trans hl))
  simp only [projectFileNames, List.mem_cons, List.not_mem_nil, or_false] at hn
  rcases hn with rfl | rfl | rfl
  · exact hother (by decide) rfl (by decide) (by decide)
  · exact hother (by decide) rfl (by decide) (by decide)
  · exact hother (by decide) rfl (by decide) (by decide)

theorem result_loadProjectFile_without (yaml : YamlReader) (p : Path) {home : Path} (hs : h.IsSettled)
    (hu : h.LeadsTo (userFile home) loc) (hf : h.files.at? loc = some (.file bytes))
    (hfile : ∀ q, file = some q → ¬ h.LeadsTo q loc) :
    (loadProjectFile yaml p file).result (h.without loc) = (loadProjectFile yaml p file).result h := by
  refine result_loadProjectFile_congr fun q hq => Job.result_entryAt?_without hs hf ?_
  cases file with
  | some named =>
    obtain rfl := List.mem_singleton.mp hq
    exact hfile q rfl
  | none =>
    obtain ⟨name, hn, rfl⟩ := List.mem_map.mp hq
    exact not_leadsTo_of_projectFileNames (getLast?_of_leadsTo_userFile hu) hn p

/-- A user's file without a mapping counts as none when nothing breaks off reading it and it is named
nowhere else. -/
theorem load_without_user_file {home : Path}
    (hjson : ∀ p, (projectFile (directory.getD h.current) file).result h = .ok (some p) →
      isYaml p = false)
    (hs : h.IsSettled) (hh : h.homeDirectory = .ok home) (hu : h.LeadsTo (userFile home) loc)
    (hf : h.files.at? loc = some (.file bytes)) (hb : breakOff? bytes = none)
    (hm : mapping? bytes = none) (hfile : ∀ p, file = some p → ¬ h.LeadsTo p loc)
    (hvariables : lookup (givenFields h directory file overrides) "_env_file" = .null)
    (hsecrets : lookup (givenFields h directory file overrides) "_secrets_dir" = .null) :
    (loadBy yaml directory file overrides).result (h.without loc) =
      (loadBy yaml directory file overrides).result h := by
  have hentry := Job.result_entryAt?_eq_iff.mpr ⟨loc, hu, hf⟩
  have hnothing : userMapping? h = none := by
    rw [userMapping?_of_home hh, writtenMapping?, hentry]
    exact hm
  have huser : loadUserFile.result h = .ok {} := by
    rw [result_loadUserFile_eq, hnothing, userBreakOff?_of_home hh, breakOffAt?, hentry]
    dsimp only
    rw [hb]
    rfl
  have hgone : loadUserFile.result (h.without loc) = .ok {} := by
    have hnone := Job.result_entryAt?_without_self hs hf hu
    have hsame : (h.without loc).homeDirectory = .ok home := hh
    rw [result_loadUserFile, hsame]
    exact (congrArg (Except.bind · _) hnone).trans rfl
  rw [load_of_user directory file overrides huser, load_of_user directory file overrides hgone]
  have hproject := result_loadProjectFile_without yaml (directory.getD h.current) hs hu hf hfile
  have hcurrent : (h.without loc).current = h.current := rfl
  rw [hcurrent, hproject]
  have hgiven := given_loadProjectFile yaml hjson
  cases hl : (loadProjectFile yaml (directory.getD h.current) file).result h with
  | error e => rfl
  | ok l =>
    rw [hl] at hgiven
    rw [givenFields, hnothing] at hvariables hsecrets
    have hsettings := (looks_settings_of_unnamed hvariables hsecrets).same
      (show (h.without loc).environment = h.environment from rfl)
    rw [← fields_mergedOver_ofFields] at hsettings
    rw [hgiven.layer_eq]
    exact congrArg (Except.bind · ended) hsettings

/-- Loading settings from JSON files fails otherwise than with a failure of the configuration exactly where
something breaks it off. A home directory that begins with a tilde breaks off finding the user's file.
With plain keys only, making settings is broken off by the environment alone; a reserved key breaks it off
too. A user's file without a mapping counts as none when nothing breaks off reading it and it is named
nowhere else. -/
theorem load_failures (hjson : ∀ p,
      (projectFile (directory.getD h.current) file).result h = .ok (some p) → isYaml p = false) :
    (∀ e, (loadBy yaml directory file overrides).result h = .error e ∧ ¬ e.IsConfiguration ↔
      BrokenOff yaml h directory file overrides e) ∧
    (∀ e, h.homeDirectory = .error e ↔ e = .homeless ∧
      ∃ s, h.environment.get? homeVariable = some s ∧ startsWith "~" s = true) ∧
    (HasPlainKeys (givenFields h directory file overrides) → ∀ e,
      (settings (givenFields h directory file overrides)).result h = .error e ↔
        environmentFields h = .error e) ∧
    ((givenFields h directory file overrides).has reservedKey = true → ∃ message,
      (settings (givenFields h directory file overrides)).result h = .error (.badType message)) ∧
    ∀ home loc bytes, h.IsSettled → h.homeDirectory = .ok home → h.LeadsTo (userFile home) loc →
      h.files.at? loc = some (.file bytes) → breakOff? bytes = none → mapping? bytes = none →
      (∀ p, file = some p → ¬ h.LeadsTo p loc) →
      lookup (givenFields h directory file overrides) "_env_file" = .null →
      lookup (givenFields h directory file overrides) "_secrets_dir" = .null →
      (loadBy yaml directory file overrides).result (h.without loc) =
        (loadBy yaml directory file overrides).result h := by
  refine ⟨fun e => load_error_iff hjson, fun e => homeDirectory_eq_error_iff, fun hplain e => ?_,
    fun hreserved => ?_, ?_⟩
  · rw [result_settings_of_plain hplain]
    exact except_map_eq_error
  · exact ⟨_, settings_of_reserved hreserved⟩
  · intro home loc bytes hs hh hu hf hb hm hfile hvariables hsecrets
    exact load_without_user_file hjson hs hh hu hf hb hm hfile hvariables hsecrets

/-! ## A user's file that cannot be used -/

def namedFile : Path := ⟨.relative, ["named.json"]⟩

def userPlace : Location := ["u", ".chunklink", "config.json"]

def troubledHost (content : Bytes) : Host :=
  { plainHost with
    files :=
      [(["p"], .directory), (["u"], .directory), (["u", ".chunklink"], .directory),
        (userPlace, .file content), (["p", "named.json"], .file (encodeUtf8 "null"))] }

theorem troubledHost_named (content : Bytes) :
    (troubledHost content).LeadsTo namedFile ["p", "named.json"] := ⟨by decide +kernel, rfl⟩

theorem troubledHost_user (content : Bytes) :
    (troubledHost content).LeadsTo (userFile plainHost.home) userPlace := ⟨by decide +kernel, rfl⟩

theorem troubledHost_has (content : Bytes) :
    (troubledHost content).Has (userFile plainHost.home) (.file content) :=
  ⟨userPlace, troubledHost_user content, rfl⟩

/-- An opening bracket in the user's file is left out. A byte that starts nothing ends loading, though the
named file can be used, and so does a home directory that begins with a tilde. -/
theorem troubled_loading :
    (load none (some namedFile) []).result ((troubledHost (encodeUtf8 "[")).without userPlace) =
      (load none (some namedFile) []).result (troubledHost (encodeUtf8 "[")) ∧
    (load none (some namedFile) []).result (troubledHost [0xFF]) =
      .error (.undecodable (Utf8Problem.message ⟨0xFF, 0, 0, .badStart⟩)) ∧
    (load none (some namedFile) []).result
      { troubledHost [] with environment := [("HOME", "~x")] } = .error .homeless := by
  have hjson (h : Host) (p : Path) : (projectFile (Option.getD none h.current)
      (some namedFile)).result h = .ok (some p) → isYaml p = false := by
    rintro ⟨⟩
    decide
  have hbracket : decodeUtf8 (encodeUtf8 "[") = .ok "[" := by
    obtain ⟨hwhole, hhalf⟩ := isWhole_of_unmarked (s := "[") (forall_mem_of_all (by decide))
    exact decodeUtf8_encodeUtf8 hwhole hhalf
  have hopen : parse "[" = .error (.malformed .value 1 2 1) := rfl
  have hempty : givenFields (troubledHost (encodeUtf8 "[")) none (some namedFile) [] = [] :=
    List.isEmpty_iff.mp (by decide +kernel)
  refine ⟨?_, ?_, ?_⟩
  · refine (load_failures (hjson _)).2.2.2.2 plainHost.home userPlace (encodeUtf8 "[") ?_ rfl
      (troubledHost_user _) rfl ?_ ?_ ?_ ?_ ?_
    · exact FileTree.stands_concat_iff.mpr ⟨FileTree.stands_nil, rfl⟩
    · rw [breakOff?, hbracket]
      dsimp only
      rw [hopen]
    · rw [mapping?, writtenValue?, hbracket]
      dsimp only
      rw [hopen]
      rfl
    · rintro _ ⟨⟩ hnamed
      exact absurd (hnamed.unique (troubledHost_named _)) (by decide)
    · rw [hempty]
      rfl
    · rw [hempty]
      rfl
  · refine (((load_failures (hjson _)).1 _).mpr (.user ?_)).1
    have hentry := Job.result_entryAt?_eq_iff.mpr (troubledHost_has [0xFF])
    have hhome : (troubledHost [0xFF]).homeDirectory = .ok plainHost.home := rfl
    rw [userBreakOff?_of_home hhome, breakOffAt?, hentry]
    rfl
  · refine (((load_failures (hjson _)).1 _).mpr (.user ?_)).1
    rfl

end Config

end ChunkBuild
