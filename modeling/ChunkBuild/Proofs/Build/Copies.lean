import ChunkBuild.Proofs.Build.Confined
import ChunkBuild.Proofs.Host.Subtree
import ChunkBuild.Proofs.Source.License
import ChunkBuild.Proofs.Text.Utf8
/-! # The copies that staging leaves

Staging empties its directory first and then writes one file for each source, so it ends with these
files and no others. The invariant of the run: the files below the staging directory are the copies made
so far. It carries from source to source as long as no two copies are called the same and no source lies
in the directory that was emptied. -/
namespace ChunkBuild

open ChunkBuild.Text ChunkBuild.Source

/-! ## Copies -/

def stagedNames (flat : String) : List String := (Path.ofText flat).parts.map systemText

/-- A source that is staged: where its copy goes, its bytes and its text. -/
structure Copy where
  flat : String
  source : Bytes
  text : String

namespace Copy

def content (holders : List String) (c : Copy) : Bytes := encodeUtf8 (normalize holders c.text).1

def removed (holders : List String) (c : Copy) : Nat := (normalize holders c.text).2

structure IsOf (p : Project) (f : Flattening) (h : Host) (s : String) (c : Copy) : Prop where
  staged : StagedAs f s c.flat
  stands : h.files.at? (p.sourcePlace h.current s) = some (.file c.source)
  decoded : decodeUtf8 c.source = .ok c.text

variable {holders : List String} {c : Copy}

/-- A source without a license block is copied as it is. -/
theorem content_of_no_block (hd : decodeUtf8 c.source = .ok c.text)
    (hno : ∀ x, x <:+: c.text.toList → ¬ IsBlock (holderTexts holders) x) :
    c.content holders = c.source ∧ c.removed holders = 0 := by
  rw [content, removed, normalize_of_no_block hno]
  exact ⟨encodeUtf8_of_decodeUtf8 hd, rfl⟩

end Copy

variable {p : Project} {f : Flattening} {area token s : String} {holders js : List String}
  {h m k : Host} {done : List (Location × Bytes)}

def Project.entryOf (p : Project) (cwd : Path) (holders : List String) (c : Copy) :
    Location × Bytes :=
  (p.stagingDirectory.placeIn cwd ++ stagedNames c.flat, c.content holders)

theorem Project.entryOf_eq_iff {p : Project} {cwd : Path} {holders : List String} {c : Copy}
    {loc : Location} {content : Bytes} : p.entryOf cwd holders c = (loc, content) ↔
      loc = p.stagingDirectory.placeIn cwd ++ stagedNames c.flat ∧ content = c.content holders := by
  rw [entryOf, Prod.mk.injEq, eq_comm, @eq_comm _ (c.content holders)]

/-- A host in the middle of staging: outside the staging directory it is as before, and below stand the
copies made so far. -/
structure Midway (p : Project) (h : Host) (done : List (Location × Bytes)) (m : Host) : Prop where
  current : m.current = h.current
  spared : FileTree.Spares (p.stagingDirectory.placeIn h.current <+: ·) h.files m.files
  below : m.files.HoldsBelow (p.stagingDirectory.placeIn h.current) done

namespace Project

section Flattened

variable (hp : p.paths = .fit (.flattening f)) (hf : Flattening.make area token "/" = .ok f)
  (hh : p.holders = .fit holders)

include hp hf hh

/-- One source adds its copy. -/
theorem midway_of_stageFile (hm : Midway p h done m)
    (hout : ¬ p.stagingDirectory.placeIn h.current <+: p.sourcePlace h.current s)
    {file : String × Nat} (hr : p.stageFile s m = .ok file k)
    (hfree : ∀ x ∈ done, x.1 ≠ p.stagingDirectory.placeIn h.current ++ stagedNames file.1) :
    ∃ c : Copy, c.IsOf p f h s ∧ file = (c.flat, c.removed holders) ∧
      Midway p h (done ++ [p.entryOf h.current holders c]) k := by
  have hstaged := stagedAs_of_stageFile hp hr
  unfold stageFile at hr
  dsimp only at hr
  rw [hstaged.inside, if_neg Bool.false_ne_true] at hr
  obtain ⟨given, hgiven, hr⟩ := Job.lift_bind_eq_ok.mp hr
  rw [hh] at hgiven
  cases hgiven
  obtain ⟨text, n, hread, hr⟩ := Job.bind_eq_ok.mp hr
  obtain ⟨source, hsource, hdecoded, hn⟩ := Job.readRaw_eq_ok.mp hread
  obtain ⟨paths, -, hr⟩ := Job.lift_bind_eq_ok.mp hr
  obtain ⟨flat, -, hr⟩ := Job.lift_bind_eq_ok.mp hr
  obtain ⟨_, q, hparents, hr⟩ := Job.bind_eq_ok.mp hr
  obtain ⟨_, r, hwrite, hr⟩ := Job.bind_eq_ok.mp hr
  obtain ⟨rfl, rfl⟩ := EStateM.Result.ok.inj hr
  -- the source outside of the staging directory is still the one from before
  have hstands : h.files.at? (p.sourcePlace h.current s) = some (.file source) := by
    obtain ⟨loc, hloc, hat⟩ := hsource
    rw [← hloc.placeIn_eq, hm.current] at hat
    exact (hm.spared.file_iff hout).mp hat
  -- making directories changes no file
  have hspares : Job.Spares h.current (fun _ => False)
      (Job.ensureDirectories (p.stagingDirectory.child flat).parent) := Job.spares_ensureDirectories
  obtain ⟨hcurrent, hfiles⟩ := hspares.of_ok (hn ▸ hm.current) hparents
  rw [hn] at hfiles
  obtain ⟨loc, hloc, hdirectory, rfl⟩ := Job.writeBytes_eq_ok.mp hwrite
  have hplace : loc = p.stagingDirectory.placeIn h.current ++ stagedNames flat := by
    rw [← hloc.placeIn_eq, hcurrent, hstaged.placeIn_child hf]
    rfl
  have hne : loc ≠ [] := by
    intro hnil
    rw [hnil] at hdirectory
    exact hdirectory rfl
  refine ⟨⟨flat, source, text⟩, ⟨hstaged, hstands, hdecoded⟩, rfl, ?_⟩
  constructor
  · exact hcurrent
  · refine (hm.spared.trans (hfiles.mono fun _ hfalse => hfalse.elim)).trans ?_
    refine FileTree.spares_put ?_
    rw [hplace]
    exact List.prefix_append _ _
  · rw [entryOf, ← hplace]
    exact (hm.below.of_spares hfiles).put hne (hplace ▸ hfree)

/-- A run adds the copies of its sources one after the other. -/
theorem midway_of_stageFiles (hm : Midway p h done m)
    (hout : ∀ s ∈ js, ¬ p.stagingDirectory.placeIn h.current <+: p.sourcePlace h.current s)
    {files : List (String × Nat)} (hr : p.stageFiles js m = .ok files k)
    (hd : (files.map fun file => stagedNames file.1).Nodup)
    (hfree : ∀ file ∈ files, ∀ x ∈ done,
      x.1 ≠ p.stagingDirectory.placeIn h.current ++ stagedNames file.1) :
    ∃ copies : List Copy, List.Forall₂ (Copy.IsOf p f h) js copies ∧
      files = copies.map (fun c => (c.flat, c.removed holders)) ∧
      Midway p h (done ++ copies.map (p.entryOf h.current holders)) k := by
  induction js generalizing m done files with
  | nil =>
    obtain ⟨rfl, rfl⟩ := EStateM.Result.ok.inj hr
    refine ⟨[], .nil, rfl, ?_⟩
    rwa [List.map_nil, List.append_nil]
  | cons s js ih =>
    obtain ⟨hs, hjs⟩ := List.forall_mem_cons.mp hout
    obtain ⟨file, n, hone, hrest⟩ := Job.bind_eq_ok.mp hr
    obtain ⟨later, q, hmany, hlast⟩ := Job.bind_eq_ok.mp hrest
    obtain ⟨rfl, rfl⟩ := EStateM.Result.ok.inj hlast
    obtain ⟨hfirst, hlater⟩ := List.forall_mem_cons.mp hfree
    obtain ⟨c, hc, rfl, hn⟩ := midway_of_stageFile hp hf hh hm hs hone hfirst
    rw [List.map_cons, List.nodup_cons] at hd
    obtain ⟨hnew, hd⟩ := hd
    obtain ⟨copies, hcopies, rfl, hk⟩ := ih hn hjs hmany hd (by
      intro file hfile x hx
      rcases List.mem_append.mp hx with hx | hx
      · exact hlater file hfile x hx
      · -- the copy just made is not called as a later one
        rw [List.mem_singleton.mp hx]
        intro he
        rw [entryOf, List.append_cancel_left_eq] at he
        exact hnew (List.mem_map.mpr ⟨file, hfile, he.symm⟩))
    refine ⟨c :: copies, .cons hc hcopies, rfl, ?_⟩
    rwa [List.append_assoc] at hk

end Flattened

/-- A staging directory that is made anew holds no files. -/
theorem midway_of_makeDirectories (hc : m.current = h.current)
    (hs : FileTree.Spares (p.stagingDirectory.placeIn h.current <+: ·) h.files m.files)
    (hb : m.files.at? (p.stagingDirectory.placeIn h.current) = none →
      m.files.HoldsBelow (p.stagingDirectory.placeIn h.current) [])
    (hr : Job.makeDirectories p.stagingDirectory m = .ok () k) : Midway p h [] k := by
  have hnone := Job.absent_of_makeDirectories hr
  rw [hc] at hnone
  have hspares : Job.Spares h.current (fun _ => False) (Job.makeDirectories p.stagingDirectory) :=
    Job.spares_makeDirectories
  obtain ⟨hcurrent, hfiles⟩ := hspares.of_ok hc hr
  exact ⟨hcurrent, hs.trans (hfiles.mono fun _ hfalse => hfalse.elim), (hb hnone).of_spares hfiles⟩

/-- Staging starts its run with nothing below the staging directory. -/
theorem exists_midway_of_stage {staged : List String} {removed : Nat} (hg : h.files.IsGrounded)
    (hr : p.stage js h = .ok (staged, removed) k) : ∃ m files n, Midway p h [] m ∧
      p.stageFiles js m = .ok files n ∧ k.files = n.files ∧ staged = files.map (·.1) ∧
      removed = files.foldr (fun file total => file.2 + total) 0 := by
  obtain ⟨_, h₁, hcheck, hr⟩ := Job.bind_eq_ok.mp hr
  obtain ⟨-, hh₁⟩ := checkStaging_eq_ok_iff.mp hcheck
  obtain ⟨found, h₂, hfound, hr⟩ := Job.bind_eq_ok.mp hr
  have hh₂ : h₂ = h := (Job.exists?_eq_ok hfound).trans hh₁
  rw [hh₂] at hr
  -- nothing stands below, as it was removed or as there was no directory to hold it
  cases found
  case' true =>
    obtain ⟨_, m, hremove, hr⟩ := Job.bind_eq_ok.mp hr
    obtain ⟨hc, hs⟩ := Job.spares_removeTree.of_ok rfl hremove
    have hb := fun (_ : m.files.at? (p.stagingDirectory.placeIn h.current) = none) =>
      Job.holdsBelow_of_removeTree hremove
  case' false =>
    have hc : h.current = h.current := rfl
    have hs : FileTree.Spares (p.stagingDirectory.placeIn h.current <+: ·) h.files h.files := .refl _
    have hb : h.files.at? (p.stagingDirectory.placeIn h.current) = none →
      h.files.HoldsBelow (p.stagingDirectory.placeIn h.current) [] := hg.holdsBelow
  all_goals
    obtain ⟨_, q, hmake, hr⟩ := Job.bind_eq_ok.mp hr
    obtain ⟨files, n, hfiles, hr⟩ := Job.bind_eq_ok.mp hr
    obtain ⟨_, l, hlogged, hr⟩ := Job.bind_eq_ok.mp hr
    cases hlogged
    obtain ⟨hresult, rfl⟩ := EStateM.Result.ok.inj hr
    obtain ⟨rfl, rfl⟩ := Prod.mk.inj hresult
    exact ⟨q, files, n, midway_of_makeDirectories hc hs hb hmake, hfiles, rfl, rfl, rfl⟩

end Project

/-- When staging returns and no two staged paths are called the same, each is the flattened form of its
source's normal path, and the files below the staging directory are the copies of the sources, whatever
was there before. -/
theorem staging_exact (hp : p.paths = .fit (.flattening f))
    (hf : Flattening.make area token "/" = .ok f) (hh : p.holders = .fit holders)
    (hg : h.files.IsGrounded)
    (hout : ∀ s ∈ js, ¬ p.stagingDirectory.placeIn h.current <+: p.sourcePlace h.current s)
    {staged : List String} {removed : Nat} (hr : p.stage js h = .ok (staged, removed) k)
    (hd : (staged.map stagedNames).Nodup) :
    ∃ copies : List Copy, List.Forall₂ (Copy.IsOf p f h) js copies ∧
      staged = copies.map Copy.flat ∧ removed = (copies.map (Copy.removed holders)).sum ∧
      (∀ c ∈ copies, (∀ x, x <:+: c.text.toList → ¬ IsBlock (holderTexts holders) x) →
        c.content holders = c.source ∧ c.removed holders = 0) ∧
      ∀ loc content, p.stagingDirectory.placeIn h.current <+: loc →
        (k.files.at? loc = some (.file content) ↔ ∃ c ∈ copies,
          loc = p.stagingDirectory.placeIn h.current ++ stagedNames c.flat ∧
            content = c.content holders) := by
  obtain ⟨m, files, n, hm, hfiles, hk, rfl, rfl⟩ := Project.exists_midway_of_stage hg hr
  rw [List.map_map] at hd
  obtain ⟨copies, hcopies, rfl, hn⟩ := Project.midway_of_stageFiles hp hf hh hm hout hfiles hd
    fun _ _ _ hx => nomatch hx
  refine ⟨copies, hcopies, ?_, ?_, ?_, ?_⟩
  · rw [List.map_map]
    rfl
  · rw [List.foldr_map, List.sum_eq_foldr, List.foldr_map]
  · intro c hc hno
    obtain ⟨s, -, hs⟩ := exists_left_of_forall₂ hcopies hc
    exact Copy.content_of_no_block hs.decoded hno
  · intro loc content hloc
    rw [hk, hn.below loc content hloc, List.nil_append, List.mem_map]
    simp only [Project.entryOf_eq_iff]

theorem apart_staged_exactly : ∃ k copies,
    shadowProject.stage apartSources crossingHost =
      .ok (["core/x-slash-slash-y.js", "core/x-slash-z.js"], 0) k ∧
    List.Forall₂ (Copy.IsOf shadowProject {} crossingHost) apartSources copies ∧
    ∀ loc content, shadowProject.stagingDirectory.placeIn crossingHost.current <+: loc →
      (k.files.at? loc = some (.file content) ↔ ∃ c ∈ copies,
        loc = shadowProject.stagingDirectory.placeIn crossingHost.current ++ stagedNames c.flat ∧
          content = c.content defaultHolders) := by
  have hmake : Flattening.make "core" "-slash-" "/" = .ok {} := rfl
  have hg : crossingHost.files.IsGrounded := FileTree.isGrounded_of_entries (by decide +kernel)
  have hout : ∀ s ∈ apartSources, ¬ shadowProject.stagingDirectory.placeIn crossingHost.current <+:
      shadowProject.sourcePlace crossingHost.current s := by decide +kernel
  obtain ⟨k, hrun⟩ := apart_run
  obtain ⟨copies, hcopies, -, -, -, hfiles⟩ :=
    staging_exact rfl hmake rfl hg hout hrun (by decide +kernel)
  exact ⟨k, copies, hrun, hcopies, hfiles⟩

/-! ## Copies that are not exact -/

def selfStagingProject : Project :=
  { shadowProject with stagingDirectory := ⟨.root, ["p", "stg"]⟩ }

def selfStagingHost : Host :=
  { files := [(["p"], .directory), (["p", "a.js"], .file [65]), (["p", "stg"], .directory),
      (["p", "stg", "a.js"], .file [66])]
    current := ⟨.root, ["p"]⟩
    home := ⟨.root, []⟩ }

def accentCrossingHost : Host :=
  { files := [(["p"], .directory), (["p", "core"], .directory), (["p", "core", "x"], .directory),
      (["p", "core", "x-slash"], .directory), (["p", "core", "x-slash", "é.js"], .file [67]),
      (["p", "core", "x", "slash-é.js"], .file [68])]
    current := ⟨.root, ["p"]⟩
    home := ⟨.root, []⟩ }

def accentBytes : String := String.ofList (ofPoints [0xDCC3, 0xDCA9]) ++ ".js"

def accentSources : List String := ["core/x-slash/é.js", "core/x/slash-" ++ accentBytes]

/-- A source in the staging directory is read as what was staged over it, and two staged paths that spell
one name hold what was staged last. -/
theorem copies_not_exact :
    (∃ k, selfStagingProject.stage ["a.js", "stg/a.js"] selfStagingHost =
        .ok (["a.js", "stg/a.js"], 0) k ∧
      ["a.js", "stg/a.js"].Nodup ∧
      selfStagingHost.files.at? ["p", "stg", "a.js"] = some (.file [66]) ∧
      k.files.at? ["p", "stg", "stg", "a.js"] = some (.file [65])) ∧
    ∃ k, shadowProject.stage accentSources accentCrossingHost =
        .ok (["core/x-slash-slash-é.js", "core/x-slash-slash-" ++ accentBytes], 0) k ∧
      ["core/x-slash-slash-é.js", "core/x-slash-slash-" ++ accentBytes].Nodup ∧
      accentCrossingHost.files.at? ["p", "core", "x-slash", "é.js"] = some (.file [67]) ∧
      k.files.at? ["p", "staging", "core", "x-slash-slash-é.js"] = some (.file [68]) := by
  constructor
  · obtain ⟨k, hrun, hfound⟩ : ∃ k, selfStagingProject.stage ["a.js", "stg/a.js"] selfStagingHost =
        .ok (["a.js", "stg/a.js"], 0) k ∧
        decide (k.files.at? ["p", "stg", "stg", "a.js"] = some (.file [65])) = true :=
      Job.exists_of_result_of_leaves (by decide +kernel) (by decide +kernel)
    exact ⟨k, hrun, by decide, rfl, of_decide_eq_true hfound⟩
  · obtain ⟨k, hrun, hfound⟩ : ∃ k, shadowProject.stage accentSources accentCrossingHost =
        .ok (["core/x-slash-slash-é.js", "core/x-slash-slash-" ++ accentBytes], 0) k ∧
        decide (k.files.at? ["p", "staging", "core", "x-slash-slash-é.js"] =
          some (.file [68])) = true :=
      Job.exists_of_result_of_leaves (by decide +kernel) (by decide +kernel)
    exact ⟨k, hrun, by decide +kernel, rfl, of_decide_eq_true hfound⟩

end ChunkBuild
