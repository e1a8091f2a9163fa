import ChunkBuild.Proofs.Build.Staging
import ChunkBuild.Proofs.Host.Spared
import ChunkBuild.Proofs.Source.Below
/-! # What staging touches

Every source goes to a path of names below the staging directory, whatever the source is called, so
staging touches nothing outside. Main statement: no other file is made, changed or removed, sources are
read inside the project only, and the project directory stays unless the staging directory is another
spelling of it. -/
namespace ChunkBuild

open ChunkBuild.Text ChunkBuild.Source

variable {p : Project} {f : Flattening} {area token s flat : String} {js : List String} {h k : Host}
  {cwd : Path} {e : Failure}

/-- A path that is a directory's path or below it by text alone. -/
def Path.LiesIn (q d : Path) : Prop := ∃ names, ".." ∉ names ∧ q = ⟨d.anchor, d.parts ++ names⟩

/-- Two paths spell a name that both have in one way. -/
def Path.SpellsAs (p q : Path) : Prop :=
  ∀ s ∈ p.parts, ∀ t ∈ q.parts, systemText s = systemText t → s = t

namespace Project

/-! ## Staging with another reader -/

def stageFileBy (p : Project) (read : Path → Job String) (js : String) : Job (String × Nat) := do
  let relative := (Path.ofText js).normalize
  if leadsOut relative then
    throw (.validation "js" (.str js) "Source lies outside the project directory")
  let holders ← Job.lift p.holders.get
  let source ← read (p.directory.join relative)
  let (text, removed) := Source.normalize holders source
  let flat ← Job.lift ((← Job.lift p.paths.get).flatten relative.text)
  let destination := p.stagingDirectory.child flat
  Job.ensureDirectories destination.parent
  Job.writeText destination text
  pure (flat, removed)

def stageFilesBy (p : Project) (read : Path → Job String) : List String → Job (List (String × Nat))
  | [] => pure []
  | js :: r => do
    let staged ← p.stageFileBy read js
    let later ← p.stageFilesBy read r
    pure (staged :: later)

/-- Staging as it is, but for how a source is read. -/
def stageBy (p : Project) (read : Path → Job String) (jsFiles : List String) :
    Job (List String × Nat) := do
  p.checkStaging
  if ← Job.exists? p.stagingDirectory then Job.removeTree p.stagingDirectory
  Job.makeDirectories p.stagingDirectory
  let staged ← p.stageFilesBy read jsFiles
  let removed := staged.foldr (fun file total => file.2 + total) 0
  Job.logged .info
    ("Staged " ++ natText staged.length ++ " files (" ++ natText removed
      ++ " license blocks stripped) in " ++ p.stagingDirectory.text)
  pure (staged.map (·.1), removed)

/-! ## Sources inside the project -/

theorem no_up_of_inside (h : leadsOut (Path.ofText s).normalize = false) :
    (Path.ofText s).isAbsolute = false ∧ ".." ∉ (Path.ofText s).normalize.parts := by
  obtain ⟨hrelative, hfirst⟩ := Bool.or_eq_false_iff.mp h
  refine ⟨hrelative, Path.no_up_normalize hrelative ?_⟩
  intro hup
  rw [hup] at hfirst
  cases hfirst

theorem liesIn_of_inside {d : Path} (h : leadsOut (Path.ofText s).normalize = false) :
    (d.join (Path.ofText s).normalize).LiesIn d := by
  obtain ⟨hrelative, hup⟩ := no_up_of_inside h
  refine ⟨_, hup, ?_⟩
  rw [Path.join, if_neg]
  exact fun ha => Bool.false_ne_true (hrelative.symm.trans ha)

theorem stageFileBy_eq {read : Path → Job String}
    (h : ∀ q, q.LiesIn p.directory → read q = Job.readRaw q) :
    p.stageFileBy read s = p.stageFile s := by
  unfold stageFileBy stageFile
  dsimp only
  cases hout : leadsOut (Path.ofText s).normalize with
  | true => simp only [if_true, Job.throw_bind]
  | false => rw [h _ (liesIn_of_inside hout)]

theorem stageFilesBy_eq {read : Path → Job String}
    (h : ∀ q, q.LiesIn p.directory → read q = Job.readRaw q) :
    p.stageFilesBy read js = p.stageFiles js := by
  induction js with
  | nil => rfl
  | cons s js ih => rw [stageFilesBy, stageFiles, stageFileBy_eq h, ih]

theorem stageBy_eq {read : Path → Job String}
    (h : ∀ q, q.LiesIn p.directory → read q = Job.readRaw q) : p.stageBy read js = p.stage js := by
  unfold stageBy stage
  rw [stageFilesBy_eq h]

end Project

theorem StagedAs.names (hf : Flattening.make area token "/" = .ok f) (hs : StagedAs f s flat) :
    (Path.ofText flat).isAbsolute = false ∧ ".." ∉ (Path.ofText flat).parts := by
  obtain ⟨hrelative, hup⟩ := Project.no_up_of_inside hs.inside
  obtain ⟨hanchor, hnames⟩ := Flattening.ofText_flatten hf (Path.isPlain_ofText s).normalize
    (Path.isAbsolute_eq_false_iff.mp hrelative) hup hs.flattened
  exact ⟨Path.isAbsolute_eq_false_iff.mpr hanchor, hnames⟩

theorem StagedAs.placeIn_child (hf : Flattening.make area token "/" = .ok f) (hs : StagedAs f s flat)
    (d : Path) : (d.child flat).placeIn cwd =
      d.placeIn cwd ++ (Path.ofText flat).parts.map systemText := by
  obtain ⟨hrelative, hup⟩ := hs.names hf
  exact Path.placeIn_join_names hrelative (Path.isPlain_ofText flat) hup

/-! ## What the steps spare -/

namespace Project

theorem keeps_checkStaging : Job.Keeps id p.checkStaging := by
  refine Job.keeps_resolved.bind fun staging => Job.keeps_resolved.bind fun project => ?_
  split
  · exact .throw _
  · exact .pure ()

section Flattened

variable (hp : p.paths = .fit (.flattening f)) (hf : Flattening.make area token "/" = .ok f)

include hp hf

theorem spares_stageFile :
    Job.Spares cwd (p.stagingDirectory.placeIn cwd <+: ·) (p.stageFile s) := by
  unfold stageFile
  dsimp only
  cases hout : leadsOut (Path.ofText s).normalize with
  | true => exact .throw _
  | false =>
    rw [if_neg Bool.false_ne_true]
    refine .lift_bind fun holders _ => .bind (.of_keeps Job.keeps_readRaw) fun source => ?_
    refine .lift_bind fun paths hpaths => .lift_bind fun flat hflat => ?_
    rw [hp] at hpaths
    cases hpaths
    rw [PathTransform.flatten, except_mapError_eq_ok] at hflat
    have hstaged : StagedAs f s flat := ⟨hout, hflat⟩
    refine .bind Job.spares_ensureDirectories fun _ => ?_
    refine .bind (Job.spares_writeBytes ?_) fun _ => .pure _
    rw [hstaged.placeIn_child hf]
    exact List.prefix_append _ _

theorem spares_stageFiles :
    Job.Spares cwd (p.stagingDirectory.placeIn cwd <+: ·) (p.stageFiles js) := by
  induction js with
  | nil => exact .pure _
  | cons s js ih => exact .bind (spares_stageFile hp hf) fun _ => .bind ih fun _ => .pure _

theorem spares_stage :
    Job.Spares cwd (p.stagingDirectory.placeIn cwd <+: ·) (p.stage js) := by
  refine .bind (.of_keeps keeps_checkStaging) fun _ => ?_
  refine .bind (.of_keeps Job.keeps_exists?) fun stands => ?_
  cases stands
  -- a staging directory that is there is removed before
  case' true => refine .bind Job.spares_removeTree fun _ => ?_
  all_goals
    exact .bind Job.spares_makeDirectories fun _ => .bind (spares_stageFiles hp hf) fun _ =>
      .bind Job.spares_logged fun _ => .pure _

end Flattened

theorem stage_of_refused (hr : p.checkStaging h = .error e k) : p.stage js h = .error e h := by
  have hk : k = h := (Job.left_of_error hr).symm.trans (keeps_checkStaging h)
  rw [← hk] at hr ⊢
  exact Job.bind_of_error hr

/-! ## Refused staging directories -/

theorem swallows_iff {anchor : Anchor} {parts names : List String} :
    swallows ⟨anchor, parts⟩ ⟨anchor, names⟩ = true ↔ parts <+: names := by
  rw [swallows, Bool.or_eq_true, Bool.or_eq_true, decide_eq_true_eq, List.contains_iff_mem,
    List.isEmpty_iff]
  constructor
  · rintro ((he | hmem) | hnil)
    · rw [(Path.mk.inj he).2]
    · obtain ⟨n, -, hn⟩ := List.mem_map.mp hmem
      rw [← (Path.mk.inj hn).2]
      exact List.take_prefix n names
    · obtain rfl : parts = [] := hnil
      exact List.nil_prefix
  · intro hin
    rcases Nat.lt_or_ge parts.length names.length with hlt | hge
    · refine .inl (.inr (List.mem_map.mpr ⟨parts.length, ?_, ?_⟩))
      · rwa [List.mem_reverse, List.mem_range]
      · rw [← List.prefix_iff_eq_take.mp hin]
    · refine .inl (.inl ?_)
      rw [hin.eq_of_length_le hge]

/-- A staging directory is refused when its resolved path is the project's or one above it. -/
theorem checkStaging_eq_ok_iff : p.checkStaging h = .ok () k ↔
    (pathProblem? p.stagingDirectory.text = none ∧ pathProblem? p.directory.text = none ∧
      ¬ (p.stagingDirectory.resolve h.current).parts <+: (p.directory.resolve h.current).parts) ∧
    k = h := by
  unfold checkStaging
  constructor
  · intro hr
    obtain ⟨staging, m, hs, hr⟩ := Job.bind_eq_ok.mp hr
    obtain ⟨hvalid, rfl, rfl⟩ := Job.resolved_eq_ok.mp hs
    obtain ⟨project, m, hd, hr⟩ := Job.bind_eq_ok.mp hr
    obtain ⟨hvalid', rfl, rfl⟩ := Job.resolved_eq_ok.mp hd
    split at hr
    · cases hr
    · next hsw =>
      cases hr
      exact ⟨⟨hvalid, hvalid', fun hin => hsw (swallows_iff.mpr hin)⟩, rfl⟩
  · rintro ⟨⟨hvalid, hvalid', hin⟩, rfl⟩
    rw [Job.bind_of_ok (Job.resolved_eq_ok.mpr ⟨hvalid, rfl, rfl⟩),
      Job.bind_of_ok (Job.resolved_eq_ok.mpr ⟨hvalid', rfl, rfl⟩), if_neg]
    · rfl
    · exact fun hsw => hin (swallows_iff.mp hsw)

theorem stage_of_prefix (hvalid : pathProblem? p.stagingDirectory.text = none)
    (hvalid' : pathProblem? p.directory.text = none)
    (hin : (p.stagingDirectory.resolve h.current).parts <+: (p.directory.resolve h.current).parts) :
    p.stage js h = .error (.configuration (some "build.staging_dir") (.str p.stagingDirectory.text)
      "Staging directory must not be the project directory or one of its parents") h := by
  apply stage_of_refused (k := h)
  rw [checkStaging, Job.bind_of_ok (Job.resolved_eq_ok.mpr ⟨hvalid, rfl, rfl⟩),
    Job.bind_of_ok (Job.resolved_eq_ok.mpr ⟨hvalid', rfl, rfl⟩), if_pos]
  · rfl
  · exact swallows_iff.mpr hin

/-! ## The project directory -/

theorem isPrefix_of_map {names more : List String}
    (ha : ∀ s ∈ names, ∀ t ∈ more, systemText s = systemText t → s = t)
    (hin : names.map systemText <+: more.map systemText) : names <+: more := by
  induction names generalizing more with
  | nil => exact List.nil_prefix
  | cons s names ih =>
    cases more with
    | nil =>
      rw [List.map_nil, List.prefix_nil] at hin
      cases hin
    | cons t more =>
      rw [List.map_cons, List.map_cons, List.cons_prefix_cons] at hin
      obtain rfl := ha s List.mem_cons_self t List.mem_cons_self hin.1
      refine List.cons_prefix_cons.mpr ⟨rfl, ih ?_ hin.2⟩
      exact fun u hu v hv => ha u (List.mem_cons_of_mem _ hu) v (List.mem_cons_of_mem _ hv)

/-- Where names are spelled in one way, the place of a staging directory that is accepted is neither the
project's nor above it. -/
theorem not_prefix_of_accepted (hc : h.current.IsNative) (hs : p.stagingDirectory.IsPlain)
    (hd : p.directory.IsPlain)
    (ha : (p.stagingDirectory.resolve h.current).SpellsAs (p.directory.resolve h.current))
    (hr : p.checkStaging h = .ok () k) :
    ¬ p.stagingDirectory.placeIn h.current <+: p.directory.placeIn h.current := by
  rw [Path.placeIn_eq_resolve hc hs, Path.placeIn_eq_resolve hc hd]
  intro hin
  exact (checkStaging_eq_ok_iff.mp hr).1.2.2 (isPrefix_of_map ha hin)

theorem directory_kept (hp : p.paths = .fit (.flattening f))
    (hf : Flattening.make area token "/" = .ok f) (hc : h.current.IsNative)
    (hs : p.stagingDirectory.IsPlain) (hd : p.directory.IsPlain)
    (ha : (p.stagingDirectory.resolve h.current).SpellsAs (p.directory.resolve h.current))
    {loc : Location} (hin : loc <+: p.directory.placeIn h.current)
    (hloc : h.files.at? loc = some .directory) :
    ((p.stage js).left h).files.at? loc = some .directory := by
  cases hr : p.checkStaging h with
  | ok _ k =>
    refine (spares_stage hp hf h rfl).2.directory ?_ hloc
    exact fun hstaging => not_prefix_of_accepted hc hs hd ha hr (hstaging.trans hin)
  | error e k =>
    rw [Job.left_of_error (stage_of_refused hr)]
    exact hloc

end Project

/-- What staging leaves alone, whether it returns or fails. -/
structure Project.StaysConfined (p : Project) (js : List String) (h : Host) : Prop where
  /-- No file outside the staging directory is made, changed or removed. -/
  files : ∀ loc content, ¬ p.stagingDirectory.placeIn h.current <+: loc →
    (((p.stage js).left h).files.at? loc = some (.file content) ↔
      h.files.at? loc = some (.file content))
  /-- How paths that are not below the project's by text are read does not matter. -/
  reads : ∀ read : Path → Job String, (∀ q, q.LiesIn p.directory → read q = Job.readRaw q) →
    p.stageBy read js = p.stage js
  /-- Nothing at all is changed when the staging directory is refused. -/
  refused : ∀ e k, p.checkStaging h = .error e k → p.stage js h = .error e h
  /-- What is refused is the project directory and what is above it, however they are written. -/
  enclosing : pathProblem? p.stagingDirectory.text = none → pathProblem? p.directory.text = none →
    (p.stagingDirectory.resolve h.current).parts <+: (p.directory.resolve h.current).parts →
    p.stage js h = .error (.configuration (some "build.staging_dir") (.str p.stagingDirectory.text)
      "Staging directory must not be the project directory or one of its parents") h
  /-- The project directory and those above it stay if no name is spelled in two ways. -/
  directories : h.current.IsNative →
    (p.stagingDirectory.resolve h.current).SpellsAs (p.directory.resolve h.current) →
    ∀ loc, loc <+: p.directory.placeIn h.current → h.files.at? loc = some .directory →
      ((p.stage js).left h).files.at? loc = some .directory

/-- Staging stays inside the staging directory. That this is not the project directory in another
spelling is not looked at. -/
theorem staging_confined (hp : p.paths = .fit (.flattening f))
    (hf : Flattening.make area token "/" = .ok f) {directory staging : String}
    (hd : p.directory = Path.ofText directory)
    (hs : p.stagingDirectory = p.directory.child staging) : p.StaysConfined js h := by
  have hplain : p.directory.IsPlain := hd ▸ Path.isPlain_ofText directory
  have hplain' : p.stagingDirectory.IsPlain := hs ▸ hplain.child
  constructor
  · intro loc content hloc
    exact (Project.spares_stage hp hf h rfl).2.file_iff hloc
  · exact fun read hread => Project.stageBy_eq hread
  · exact fun e k hr => Project.stage_of_refused hr
  · exact fun hvalid hvalid' hin => Project.stage_of_prefix hvalid hvalid' hin
  · exact fun hc ha loc hin hloc => Project.directory_kept hp hf hc hplain' hplain ha hin hloc

/-! ## Sources -/

def Project.sourcePlace (p : Project) (cwd : Path) (s : String) : Location :=
  (p.directory.join (Path.ofText s).normalize).placeIn cwd

/-- Sources outside the staging directory stay as they are, whether staging returns or fails. -/
theorem sources_kept (hp : p.paths = .fit (.flattening f))
    (hf : Flattening.make area token "/" = .ok f) :
    ∀ s ∈ js, ¬ p.stagingDirectory.placeIn h.current <+: p.sourcePlace h.current s →
      ∀ content, h.files.at? (p.sourcePlace h.current s) = some (.file content) →
        ((p.stage js).left h).files.at? (p.sourcePlace h.current s) = some (.file content) := by
  intro s _ hout content hfile
  obtain ⟨-, hspares⟩ := Project.spares_stage hp hf h rfl
  exact (hspares.file_iff hout).mpr hfile

/-! ## A directory above the project in another spelling -/

def accentProject (staging : String) : Project :=
  { shadowProject with
    directory := Path.ofText "/p/é/q"
    stagingDirectory := (Path.ofText "/p/é/q").child staging }

def accentHost : Host :=
  { files := [(["p"], .directory), (["p", "é"], .directory), (["p", "é", "q"], .directory),
      (["p", "é", "q", "a.js"], .file [65])]
    current := ⟨.root, ["p"]⟩
    home := ⟨.root, []⟩ }

/-- The path of the directory above the project with the bytes of its name one by one. -/
def accentInBytes : String := "/p/" ++ String.ofList (ofPoints [0xDCC3, 0xDCA9])

/-- Below the project staging keeps it. A directory above it is refused when it is spelled as in the
project's path, and the project is removed with it when it is not. -/
theorem project_removed_by_other_spelling :
    (((accentProject "staging").stage ["a.js"]).left accentHost).files.at? ["p", "é", "q"] =
      some .directory ∧
    ((accentProject "/p/é").stage ["a.js"]).left accentHost = accentHost ∧
    (∃ k, (accentProject accentInBytes).checkStaging accentHost = .ok () k) ∧
    (((accentProject accentInBytes).stage ["a.js"]).left accentHost).files.at? ["p", "é", "q"] =
      none := by
  have hmake : Flattening.make "core" "-slash-" "/" = .ok {} := rfl
  have hd (staging : String) : (accentProject staging).directory = Path.ofText "/p/é/q" := rfl
  have hs (staging : String) : (accentProject staging).stagingDirectory =
      (accentProject staging).directory.child staging := rfl
  have hconfined (staging : String) : (accentProject staging).StaysConfined ["a.js"] accentHost :=
    staging_confined rfl hmake (hd staging) (hs staging)
  have hdirectory : (accentProject "staging").directory.placeIn accentHost.current =
      ["p", "é", "q"] := by decide +kernel
  refine ⟨?_, ?_, Job.exists_of_result (by decide +kernel), by decide +kernel⟩
  · refine (hconfined "staging").directories ⟨by decide, by decide +kernel⟩ ?_ _ ?_
      (by decide +kernel)
    · unfold Path.SpellsAs
      decide +kernel
    · rw [hdirectory]
  · have hrefused := (hconfined "/p/é").enclosing (by decide +kernel) (by decide +kernel)
      (by decide +kernel)
    exact Job.left_of_error hrefused

/-! ## A staging directory with sources in it -/

def clearedProject : Project := { shadowProject with stagingDirectory := ⟨.root, ["p", "core"]⟩ }

def clearedHost : Host :=
  { files := [(["p"], .directory), (["p", "a.js"], .file [65]), (["p", "core"], .directory),
      (["p", "core", "a.js"], .file [66])]
    current := ⟨.root, ["p"]⟩
    home := ⟨.root, []⟩ }

/-- The staging directory is accepted, and the source in it is gone. -/
theorem source_in_staging_removed :
    (∃ k, clearedProject.checkStaging clearedHost = .ok () k) ∧
    Project.leadsOut (Path.ofText "core/a.js").normalize = false ∧
    clearedHost.Has (clearedProject.directory.join (Path.ofText "core/a.js").normalize)
      (.file [66]) ∧
    clearedProject.sourcePlace clearedHost.current "core/a.js" = ["p", "core", "a.js"] ∧
    ((clearedProject.stage ["core/a.js"]).left clearedHost).files.at? ["p", "core", "a.js"] = none :=
  ⟨Job.exists_of_result (by decide +kernel), by decide +kernel,
    ⟨_, ⟨by decide +kernel, rfl⟩, rfl⟩, by decide +kernel, by decide +kernel⟩

theorem source_beside_staging_kept :
    ((clearedProject.stage ["a.js"]).left clearedHost).files.at? ["p", "a.js"] =
      some (.file [65]) := by
  have hmake : Flattening.make "core" "-slash-" "/" = .ok {} := rfl
  have hsource : clearedProject.sourcePlace clearedHost.current "a.js" = ["p", "a.js"] := by
    decide +kernel
  have hout : ¬ clearedProject.stagingDirectory.placeIn clearedHost.current <+:
      clearedProject.sourcePlace clearedHost.current "a.js" := by decide +kernel
  rw [← hsource]
  exact sources_kept rfl hmake "a.js" List.mem_cons_self hout [65] rfl

end ChunkBuild
