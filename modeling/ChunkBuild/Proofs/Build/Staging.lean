import ChunkBuild.Build
import ChunkBuild.Proofs.Build.Outputs
import ChunkBuild.Proofs.Path.Normal
import ChunkBuild.Proofs.Source.Flatten
/-! # Where sources are staged

Each source goes to the flattened form of its normal path, and a later source overwrites an earlier one
that was flattened to the same form. Main statement: the staged paths are different exactly when the
flattening confuses no two of the sources, and so whenever the token separates the segments of every
source below the area. -/
namespace ChunkBuild

open ChunkBuild.Text ChunkBuild.Source

variable {p : Project} {f : Flattening} {h k : Host} {s : String} {js : List String}

structure StagedAs (f : Flattening) (s flat : String) : Prop where
  inside : Project.leadsOut (Path.ofText s).normalize = false
  flattened : f.flatten (normalizeText s) = .ok flat

namespace Project

theorem stagedAs_of_stageFile (hp : p.paths = .fit (.flattening f)) {file : String × Nat}
    (hr : p.stageFile s h = .ok file k) : StagedAs f s file.1 := by
  unfold stageFile at hr
  dsimp only at hr
  cases hout : leadsOut (Path.ofText s).normalize with
  | true =>
    rw [hout] at hr
    cases hr
  | false =>
    rw [hout, if_neg Bool.false_ne_true] at hr
    obtain ⟨holders, -, hread⟩ := Job.lift_bind_eq_ok.mp hr
    obtain ⟨source, m, -, hpaths⟩ := Job.bind_eq_ok.mp hread
    obtain ⟨paths, hget, hflatten⟩ := Job.lift_bind_eq_ok.mp hpaths
    rw [hp] at hget
    cases hget
    obtain ⟨flat, hflat, hwrite⟩ := Job.lift_bind_eq_ok.mp hflatten
    obtain ⟨_, _, -, hwrite⟩ := Job.bind_eq_ok.mp hwrite
    obtain ⟨_, _, -, hdone⟩ := Job.bind_eq_ok.mp hwrite
    cases hdone
    rw [PathTransform.flatten, except_mapError_eq_ok] at hflat
    exact ⟨hout, hflat⟩

theorem stagedAs_of_stageFiles (hp : p.paths = .fit (.flattening f)) {files : List (String × Nat)}
    (hr : p.stageFiles js h = .ok files k) :
    List.Forall₂ (StagedAs f) js (files.map (·.1)) := by
  induction js generalizing h files with
  | nil =>
    cases hr
    exact .nil
  | cons s js ih =>
    obtain ⟨first, m, hone, hrest⟩ := Job.bind_eq_ok.mp hr
    obtain ⟨later, _, hmany, hdone⟩ := Job.bind_eq_ok.mp hrest
    cases hdone
    exact .cons (stagedAs_of_stageFile hp hone) (ih hmany)

theorem stagedAs_of_stage (hp : p.paths = .fit (.flattening f)) {staged : List String} {removed : Nat}
    (hr : p.stage js h = .ok (staged, removed) k) : List.Forall₂ (StagedAs f) js staged := by
  obtain ⟨_, _, -, hrest⟩ := Job.bind_eq_ok.mp hr
  obtain ⟨found, _, -, hrest⟩ := Job.bind_eq_ok.mp hrest
  cases found
  -- a staging directory that is there is removed before
  case' true => obtain ⟨_, _, -, hrest⟩ := Job.bind_eq_ok.mp hrest
  all_goals
    obtain ⟨_, _, -, hstage⟩ := Job.bind_eq_ok.mp hrest
    obtain ⟨files, _, hfiles, hlogged⟩ := Job.bind_eq_ok.mp hstage
    obtain ⟨_, _, -, hdone⟩ := Job.bind_eq_ok.mp hlogged
    cases hdone
    exact stagedAs_of_stageFiles hp hfiles

end Project

/-! ## Sources staged as one -/

theorem StagedAs.eq_iff (hs : f.separator = "/") (ha : f.area ≠ "") {t x y : String}
    (hx : StagedAs f s x) (hy : StagedAs f t y) :
    x = y ↔ normalizeText s = normalizeText t ∨ f.Confuses (normalizeText s) (normalizeText t) := by
  have hslash {u v : String} (h : StagedAs f u v) :
      ¬ f.separator.toList <+: (normalizeText u).toList := by
    have hrelative := (Bool.or_eq_false_iff.mp h.inside).1
    rw [hs]
    exact Path.not_slash_text (Path.isPlain_ofText u).normalize
      (Path.isAbsolute_eq_false_iff.mp hrelative)
  exact Flattening.flatten_eq_iff (.of_slash hs) ha (hslash hx) (hslash hy) hx.flattened hy.flattened

namespace Project

/-- Sources whose normal paths are different are staged under different paths exactly when no two of
them are confused. -/
theorem staged_nodup_iff (hp : p.paths = .fit (.flattening f)) {area token : String}
    (hf : Flattening.make area token "/" = .ok f) (hd : (js.map normalizeText).Nodup)
    {staged : List String} {removed : Nat} (hr : p.stage js h = .ok (staged, removed) k) :
    (staged.Nodup ↔ (js.map normalizeText).Pairwise fun s t => ¬ f.Confuses s t) ∧
    ((∀ s ∈ js.map normalizeText, f.appliesTo (f.take s) = true → f.Separable s) →
      staged.Nodup) := by
  obtain ⟨ha, ht, -, rfl⟩ := Flattening.make_eq_ok_iff.mp hf
  let f : Flattening := ⟨area, token, "/"⟩
  have hiff : staged.Nodup ↔ (js.map normalizeText).Pairwise fun s t => ¬ f.Confuses s t := by
    have hpairs : (js.Pairwise fun s t => normalizeText s ≠ normalizeText t ∧
        ¬ f.Confuses (normalizeText s) (normalizeText t)) ↔ staged.Pairwise (· ≠ ·) := by
      refine pairwise_iff_of_forall₂ (stagedAs_of_stage hp hr) fun hx hy => ?_
      rw [← not_or, ← hx.eq_iff rfl ha hy]
    rw [List.Nodup, ← hpairs, List.pairwise_and_iff, List.pairwise_map]
    exact and_iff_right (List.pairwise_map.mp hd)
  refine ⟨hiff, fun hsep => hiff.mpr ?_⟩
  apply List.Pairwise.imp_of_mem _ hd
  intro s t hs ht' hne hconfused
  exact hne (hconfused.eq_of_separable (.of_slash rfl) ha ht (hsep s hs hconfused.first)
    (hsep t ht' hconfused.second))

end Project

/-! ## A token across the end of a directory's name -/

def crossingHost : Host :=
  { files :=
      [(["p"], .directory), (["p", "core"], .directory), (["p", "core", "x"], .directory),
        (["p", "core", "x-slash"], .directory), (["p", "core", "x", "slash-y.js"], .file [65]),
        (["p", "core", "x", "z.js"], .file [66]), (["p", "core", "x-slash", "y.js"], .file [67])]
    current := ⟨.root, ["p"]⟩
    home := ⟨.root, []⟩ }

def crossingSources : List String := ["core/x-slash/y.js", "core/x/slash-y.js"]

def apartSources : List String := ["core/x-slash/y.js", "core/x/z.js"]

theorem crossing_run : ∃ k, shadowProject.stage crossingSources crossingHost =
    .ok (["core/x-slash-slash-y.js", "core/x-slash-slash-y.js"], 0) k :=
  Job.exists_of_result (by decide +kernel)

theorem apart_run : ∃ k, shadowProject.stage apartSources crossingHost =
    .ok (["core/x-slash-slash-y.js", "core/x-slash-z.js"], 0) k :=
  Job.exists_of_result (by decide +kernel)

/-- What is left of the two sources is the one that was staged last. -/
theorem crossing_overwritten : ∃ staged kept,
    shadowProject.stage crossingSources crossingHost = .ok staged kept ∧
    decide (kept.files.at? ["p", "staging", "core", "x-slash-slash-y.js"] =
      some (.file [65])) = true :=
  Job.exists_of_leaves (by decide +kernel)

theorem two_sources_staged_as_one :
    (∃ staged kept, shadowProject.stage crossingSources crossingHost = .ok (staged, 0) kept ∧
      kept.files.at? ["p", "staging", "core", "x-slash-slash-y.js"] = some (.file [65]) ∧
      ¬ staged.Nodup) ∧
    ∃ staged kept, shadowProject.stage apartSources crossingHost = .ok (staged, 0) kept ∧
      staged.Nodup := by
  have hmake : Flattening.make "core" "-slash-" "/" = .ok {} := rfl
  have hcrossing : crossingSources.map normalizeText = crossingSources := by decide +kernel
  have hapart : apartSources.map normalizeText = apartSources := by decide +kernel
  constructor
  · obtain ⟨kept, hrun⟩ := crossing_run
    obtain ⟨_, _, hsame, hfound⟩ := crossing_overwritten
    obtain ⟨-, rfl⟩ := EStateM.Result.ok.inj (hrun.symm.trans hsame)
    have hd : (crossingSources.map normalizeText).Nodup := by
      rw [hcrossing]
      decide
    refine ⟨_, kept, hrun, of_decide_eq_true hfound, ?_⟩
    rw [(Project.staged_nodup_iff rfl hmake hd hrun).1, hcrossing]
    have hconfused : Flattening.Confuses {} "core/x-slash/y.js" "core/x/slash-y.js" :=
      ⟨by decide, by decide, by decide⟩
    intro h
    exact (List.pairwise_cons.mp h).1 _ List.mem_cons_self hconfused
  · obtain ⟨kept, hrun⟩ := apart_run
    have hd : (apartSources.map normalizeText).Nodup := by
      rw [hapart]
      decide
    refine ⟨_, kept, hrun, ?_⟩
    rw [(Project.staged_nodup_iff rfl hmake hd hrun).1, hapart]
    refine .cons ?_ (.cons (fun _ h => nomatch h) .nil)
    rw [List.forall_mem_singleton]
    exact fun h => absurd h.joined (by decide)

end ChunkBuild
