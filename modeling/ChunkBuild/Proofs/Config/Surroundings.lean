import ChunkBuild.Config.Layers
import ChunkBuild.Proofs.Host.Looking
/-! # Reading settings from the surroundings

Making settings only looks at what stands around it, and whatever it fails with is no error of the program.
Main statement: this holds whatever the given fields ask for, and when they name no files, the environment
alone counts. -/
namespace ChunkBuild.Config

open ChunkBuild.Json ChunkBuild.Text

variable {fields : Fields Value} {h k : Host} {n : Naming}

abbrev Outside {α : Type} (r : Except Failure α) : Prop := FailsOnly Failure.IsForeign r

theorem outside_badType {α : Type} (message : String) :
    Outside (.error (.badType message) : Except Failure α) := .error fun _ => Failure.noConfusion

/-! ## Names -/

theorem outside_partLimit (v : Value) : Outside (Naming.partLimit v) := by
  unfold Naming.partLimit
  split
  · exact .ok _
  · exact .ok _
  · split
    · exact outside_badType _
    · exact .ok _

theorem outside_naming (fields : Fields Value) : Outside (Naming.ofFields fields) := by
  unfold Naming.ofFields
  have hlimit (v : Value) : Outside (Naming.checkLimit v) := by
    unfold Naming.checkLimit
    split
    · exact .ok ()
    · exact (outside_partLimit _).map
  extract_lets _ _ start _ rest
  have hrest : Outside (rest ()) := (hlimit _).bind fun _ _ => .ok _
  clear_value rest start
  cases start with
  | str | arr | obj => exact hrest
  | _ => exact outside_badType _

theorem outside_read (source : String) (n : Naming) (environment : Fields (Option String)) :
    Outside (Variables.read source n environment) := by
  unfold Variables.read
  split
  · exact .error fun _ => Failure.noConfusion
  · exact .ok _

theorem outside_decoded (source name text : String) : Outside (decoded source name text) := by
  unfold decoded
  split
  · exact .ok _
  · exact .error fun _ => Failure.noConfusion
  · exact .error fun _ => Failure.noConfusion

theorem outside_setVariable (vs : Variables) (name : String) (group : Group)
    (fields : Fields Value) (path : List String) (text : Option String) :
    Outside (setVariable vs name group fields path text) := by
  unfold setVariable
  split
  · exact .ok _
  · split
    · exact (outside_decoded _ _ _).map
    · split
      · exact .ok _
      · exact .ok _

theorem outside_fieldVariables (vs : Variables) (name : String) (group : Group) :
    Outside (fieldVariables vs name group) := by
  unfold fieldVariables
  dsimp only
  split
  · exact .ok []
  · refine .foldlM (fun fields said => ?_) _ _
    split
    · exact .ok _
    · exact outside_badType _
    · exact (outside_partLimit _).map.bind fun path _ => outside_setVariable _ _ _ _ _ _

theorem outside_groupVariable (vs : Variables) (name : String) (group : Group) :
    Outside (groupVariable vs name group) := by
  have hfields := outside_fieldVariables vs name group
  unfold groupVariable
  split
  · split
    · exact .ok _
    · refine (outside_decoded _ _ _).bind fun v _ => ?_
      split
      · exact .ok _
      · exact hfields.bind fun _ _ => .ok _
      · exact .ok _
  · exact hfields.bind fun _ _ => .ok _

theorem outside_ofEnvironment (source : String) (n : Naming)
    (environment : Fields (Option String)) : Outside (ofEnvironment source n environment) := by
  refine (outside_read _ _ _).bind fun vs _ => ?_
  refine .bind (.filterMapM (fun g => ?_) _) fun _ _ => .ok _
  exact (outside_groupVariable _ _ _).bind fun _ _ => .ok _

/-! ## Arguments -/

theorem outside_startOf (v : Value) : Outside (ArgumentForm.startOf v) := by
  unfold ArgumentForm.startOf
  split
  · extract_lets
    split
    · exact .ok _
    · split
      · exact .error fun _ => Failure.noConfusion
      · exact .ok _
  · split
    · exact .error fun _ => Failure.noConfusion
    · exact .ok _

theorem outside_form (fields : Fields Value) : Outside (ArgumentForm.ofFields fields) := by
  unfold ArgumentForm.ofFields
  refine (outside_startOf _).bind fun start _ => ?_
  refine .bind ?_ fun signs _ => ?_
  · unfold ArgumentForm.signsOf
    split
    · exact .ok _
    · split
      · exact .error fun _ => Failure.noConfusion
      · exact .ok _
    · exact outside_badType _
  · refine .bind ?_ fun _ _ => .ok _
    unfold ArgumentForm.otherNamesOf
    split
    · exact .ok _
    · split
      · exact .error fun _ => Failure.noConfusion
      · exact .ok _

theorem outside_namesIn (v : Value) : Outside (ArgumentForm.namesIn v) := by
  unfold ArgumentForm.namesIn
  split
  · exact .ok _
  · refine .mapM (fun v => ?_) _
    split
    · exact .ok _
    · exact outside_badType _
  · exact .ok _
  · exact outside_badType _

theorem outside_namesOf (f : ArgumentForm) (name : String) : Outside (f.namesOf name) := by
  unfold ArgumentForm.namesOf
  extract_lets
  split
  · exact .ok _
  · exact (outside_namesIn _).map

theorem outside_flagSetting (f : ArgumentForm) (name : String) : Outside (f.flagSetting name) := by
  unfold ArgumentForm.flagSetting
  split
  · exact (outside_namesOf f _).map
  · exact (outside_namesOf f _).map

theorem outside_fieldSettings (f : ArgumentForm) (name : String) (group : Group) :
    Outside (f.fieldSettings name group) := by
  refine .mapM (fun field => ?_) _
  extract_lets
  split
  · exact outside_flagSetting f _
  · exact (outside_namesOf f _).map

theorem outside_settings (f : ArgumentForm) : Outside f.settings := by
  refine .bind (.mapM (fun g => ?_) _) fun grouped _ =>
    (outside_flagSetting f "debug").bind fun _ _ => .ok _
  refine .bind (outside_namesOf f _).map fun whole _ => ?_
  exact (outside_fieldSettings f _ _).bind fun _ _ => .ok _

theorem outside_argumentWords (items : List Value) : Outside (argumentWords items) := by
  fun_induction argumentWords items with
  | case1 => exact .ok []
  | case2 _ _ ih => exact ih.map
  | case3 => exact outside_badType _
  | case4 _ _ _ _ ih => exact ih.map

theorem outside_argumentTexts (nothing : String) (found : List (Setting × Option String)) :
    Outside (argumentTexts nothing found) := by
  refine .foldlM (fun done said => ?_) _ _
  obtain ⟨s, text⟩ := said
  dsimp only
  split
  · refine FailsOnly.map ?_
    unfold mergedList
    split
    · exact .ok _
    · exact .error fun _ => Failure.noConfusion
  · exact .ok _

theorem outside_textsOfArguments (f : ArgumentForm) (isExact : Bool) (settings : List Setting)
    (items : List Value) : Outside (textsOfArguments f isExact settings items) := by
  refine (outside_argumentWords items).bind fun words _ => ?_
  extract_lets
  split
  · exact outside_argumentTexts _ _
  · exact .error fun _ => Failure.noConfusion
  · split
    · exact .error fun _ => Failure.noConfusion
    · exact .error fun _ => Failure.noConfusion

theorem outside_ofArguments (n : Naming) (fields : Fields Value) : Outside (ofArguments n fields) := by
  unfold ofArguments
  split
  · exact .ok []
  · refine (outside_form fields).bind fun f _ => (outside_settings f).bind fun settings _ => ?_
    extract_lets naming read
    have hread (texts : Fields String) : Outside (read texts) := outside_ofEnvironment _ _ _
    split
    · exact hread []
    · exact (outside_textsOfArguments _ _ _ _).bind fun texts _ => hread texts
    · split
      · exact hread []
      · exact .error fun _ => Failure.noConfusion

/-! ## Files of variables -/

theorem outside_homeDirectory (h : Host) : Outside h.homeDirectory := by
  unfold Host.homeDirectory
  split
  · exact .ok _
  · split
    · exact .error fun _ => Failure.noConfusion
    · split
      · exact .ok _
      · exact .ok _

theorem outside_namedPath {home : Except Failure Path} (hh : Outside home) (v : Value) :
    Outside (namedPath home v) := by
  unfold namedPath
  split
  · unfold fromHome
    split
    · split
      · exact hh.map
      · split
        · exact .ok _
        · split
          · exact .error fun _ => Failure.noConfusion
          · exact .ok _
    · exact .ok _
  · exact outside_badType _

theorem outside_pathValues (v : Value) : Outside (pathValues v) := by
  unfold pathValues
  split
  · exact .ok _
  · exact .ok _
  · exact .ok _
  · exact .ok _
  · exact outside_badType _

namespace FileReading

variable {reading : FileReading} {p : Path}

theorem outside_encoding? : Outside reading.encoding? := by
  unfold encoding?
  split
  · split
    · exact .error fun _ => Failure.noConfusion
    · exact .ok _
    · split
      · exact .ok _
      · split
        · exact .error fun _ => Failure.noConfusion
        · exact .error fun _ => Failure.noConfusion
  · split
    · exact outside_badType _
    · exact .ok _

theorem outside_levels : Outside reading.levels := by
  unfold levels
  split
  · exact .ok _
  · exact .ok _
  · split
    · exact outside_badType _
    · exact .ok _

theorem looks_find? : Job.Looks Host.scene (reading.find? p) := by
  refine Job.looks_isFile.bind fun isThere => ?_
  cases isThere with
  | true => exact .pure _
  | false =>
    refine .bind (.lift outside_levels) fun levels => ?_
    dsimp only
    split
    · exact .pure none
    · refine .get_bind (fun h => ?_) fun hk => ?_
      · exact .bind (.filterM (fun _ => Job.looks_isFile) _) fun _ => .pure _
      · rw [(Job.same_of_scene hk).2.1]

theorem looks_read : Job.Looks Host.scene (reading.read p) := by
  refine .bind (.lift outside_encoding?) fun encoding => Job.looks_readBytes.bind fun bytes => ?_
  split
  · exact .pure _
  · exact .throw fun _ => Failure.noConfusion
  · exact .throw fun _ => Failure.noConfusion

end FileReading

theorem reachableVariables_of_scene (hk : k.scene = h.scene) :
    k.reachableVariables = h.reachableVariables := by
  obtain ⟨-, -, hhome, henv⟩ := Job.same_of_scene hk
  rw [Host.reachableVariables, Host.reachableVariables, hhome, henv]

theorem homeDirectory_of_scene (hk : k.scene = h.scene) : k.homeDirectory = h.homeDirectory := by
  obtain ⟨-, -, hhome, henv⟩ := Job.same_of_scene hk
  rw [Host.homeDirectory, Host.homeDirectory, hhome, henv]

theorem looks_variablesIn (reading : FileReading) {home : Except Failure Path} (hh : Outside home)
    (files : List Value) : Job.Looks Host.scene (variablesIn reading home files) := by
  induction files with
  | nil => exact .pure []
  | cons v r ih =>
    refine .bind (.lift (outside_namedPath hh v)) fun p => ?_
    refine FileReading.looks_find?.bind fun found => ?_
    cases found with
    | none => exact ih.bind fun _ => .pure _
    | some p =>
      refine .get_bind (fun h => ?_) fun hk => ?_
      · exact FileReading.looks_read.bind fun _ => .bind (.pure _) fun _ => ih.bind fun _ => .pure _
      · rw [reachableVariables_of_scene hk]

/-! ## Directories of texts -/

theorem looks_secretText? (n : Naming) (name : String) (directory : Path) :
    Job.Looks Host.scene (secretText? n name directory) := by
  refine Job.looks_namesIn.bind fun names => ?_
  split
  · exact .pure none
  · refine Job.looks_isFile.bind fun isThere => ?_
    cases isThere with
    | true => exact Job.looks_readText.bind fun _ => .pure _
    | false => exact .pure none

theorem looks_lastSecret? (n : Naming) (name : String) (directories : List Path) :
    Job.Looks Host.scene (lastSecret? n name directories) := by
  induction directories with
  | nil => exact .pure none
  | cons directory r ih =>
    refine ih.bind fun found => ?_
    cases found with
    | some text => exact .pure _
    | none => exact looks_secretText? n name directory

theorem looks_secret? (n : Naming) (start : String) (directories : List Path) (name : String) :
    Job.Looks Host.scene (secret? n start directories name) := by
  refine (looks_lastSecret? n _ directories).outcome.bind fun read => ?_
  split
  · exact .throw fun _ => Failure.noConfusion
  · exact .pure none
  · split
    · exact .pure _
    · refine .bind (.lift (outside_decoded _ _ _)) fun v => ?_
      split
      · exact .pure _
      · exact .pure _
      · exact .pure _

theorem looks_ofSecrets (n : Naming) (directories : List Path) :
    Job.Looks Host.scene (ofSecrets n directories) := by
  refine .bind (.filterM (fun _ => Job.looks_exists?) _) fun present => ?_
  refine .bind (.forIn (fun p => ?_) _) fun _ => ?_
  · refine Job.looks_isDirectory.bind fun isThere => ?_
    cases isThere with
    | true => exact .pure _
    | false => exact .throw fun _ => Failure.noConfusion
  · split
    · exact .pure []
    · exact .filterMapM (fun name => (looks_secret? n _ present name).bind fun _ => .pure _) _

/-! ## Settings -/

theorem looks_surrounding (n : Naming) (fields : Fields Value) :
    Job.Looks Host.scene (surrounding n fields) := by
  refine .get_bind (fun h => ?_) fun {h k} hk => ?_
  · have hhome := outside_homeDirectory h
    refine .bind (.lift (outside_pathValues _)) fun files => ?_
    refine (looks_variablesIn _ hhome files).bind fun inFiles => ?_
    refine .bind (.lift (outside_ofArguments n fields)) fun above => ?_
    refine .bind (.lift (outside_ofEnvironment _ n _)) fun environment => ?_
    refine .bind (.lift (outside_ofEnvironment _ n _)) fun written => ?_
    refine .bind (.lift (outside_pathValues _)) fun named => ?_
    refine .bind (.lift (.mapM (outside_namedPath hhome) named)) fun directories => ?_
    exact (looks_ofSecrets n directories).bind fun _ => .pure _
  · rw [homeDirectory_of_scene hk, (Job.same_of_scene hk).2.2.2]

theorem outside_checkSources (v : Value) : Outside (checkSources v) := by
  refine .bind ?_ fun pair _ => ?_
  · unfold Compiler.Options.looseItems
    split
    · exact .ok _
    · exact .ok _
    · exact .ok _
    · exact outside_badType _
  · split
    · split
      · exact outside_badType _
      · exact .ok ()
    · exact .error fun _ => Failure.noConfusion
    · exact .error fun _ => Failure.noConfusion

variable {γ : Type} {view : Host → γ}

theorem looks_settings_of (hn : ∀ naming, Job.Looks view (surrounding naming fields)) :
    Job.Looks view (settings fields) := by
  unfold settings
  by_cases hr : fields.has reservedKey = true
  · rw [if_pos hr]
    exact .throw fun _ => Failure.noConfusion
  · rw [if_neg hr]
    split
    · refine .bind (.lift (outside_naming fields)) fun naming => ?_
      exact (hn naming).bind fun _ => .pure _
    · exact .bind (.lift (outside_checkSources _)) fun _ => .pure _

/-- Making settings only looks at what stands around it, and none of its failures is an error of the
program. -/
theorem looks_settings (fields : Fields Value) : Job.Looks Host.scene (settings fields) :=
  looks_settings_of fun naming => looks_surrounding naming fields

/-! ## No files -/

theorem looks_ofSecrets_nil (n : Naming) : Job.Looks view (ofSecrets n []) := by
  have hsecret (start name : String) : secret? n start [] name = pure none := rfl
  have hpresent : ([] : List Path).filterM (fun p => Job.exists? p) = pure [] := rfl
  unfold ofSecrets
  rw [hpresent, pure_bind, List.forIn_nil, pure_bind]
  split
  · exact .pure []
  · refine .filterMapM (fun name => ?_) _
    rw [hsecret]
    exact .bind (.pure none) fun _ => .pure _

def surroundingOf (n : Naming) (fields : Fields Value) (environment : Fields String) :
    Job Surroundings := do
  let above ← Job.lift (ofArguments n fields)
  let texts := environment.map fun (name, text) => (name, some text)
  let environment ← Job.lift (ofEnvironment "EnvSettingsSource" n texts)
  let written ← Job.lift (ofEnvironment "DotEnvSettingsSource" n [])
  let secrets ← ofSecrets n []
  return { below := merge (merge secrets written) environment, above := above }

theorem surrounding_of_unnamed (n : Naming) (hfile : lookup fields "_env_file" = .null)
    (hdirectory : lookup fields "_secrets_dir" = .null) :
    surrounding n fields = get >>= fun h => surroundingOf n fields h.environment := by
  unfold surrounding
  rw [hfile, hdirectory]
  rfl

theorem looks_surroundingOf (environment : Fields String) :
    Job.Looks view (surroundingOf n fields environment) := by
  refine .bind (.lift (outside_ofArguments n fields)) fun above => ?_
  refine .bind (.lift (outside_ofEnvironment _ n _)) fun environment => ?_
  refine .bind (.lift (outside_ofEnvironment _ n _)) fun written => ?_
  exact (looks_ofSecrets_nil n).bind fun _ => .pure _

/-- When the fields name no files, only the environment counts. -/
theorem looks_settings_of_unnamed (hfile : lookup fields "_env_file" = .null)
    (hdirectory : lookup fields "_secrets_dir" = .null) :
    Job.Looks Host.environment (settings fields) := by
  refine looks_settings_of fun naming => ?_
  rw [surrounding_of_unnamed naming hfile hdirectory]
  exact .get_bind (fun h => looks_surroundingOf h.environment) fun hk => by rw [hk]

end ChunkBuild.Config
