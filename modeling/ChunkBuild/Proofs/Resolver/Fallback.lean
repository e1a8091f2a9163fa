import ChunkBuild.Proofs.Descriptor
import ChunkBuild.Proofs.Graph.Order
import ChunkBuild.Proofs.Host.Files
import ChunkBuild.Proofs.Json.ReadBack
import ChunkBuild.Proofs.Text.Utf8
import ChunkBuild.Resolver.Compute
/-! # Falling back on the cache

The cache keeps what a live run resolves, after its paths are seen from the project directory, so a
run that falls back resolves the same. Main statement: what is kept is read back, and the outcome of
a live run is that of every later run which falls back on what it kept. -/
namespace ChunkBuild

open ChunkBuild.Text ChunkBuild.Json

structure RawOutput.IsWhole (raw : RawOutput) : Prop where
  chunk : ∀ s ∈ raw.chunk, Text.IsWhole s
  js : ∀ s ∈ raw.js, Text.IsWhole s

variable {raw : RawOutput} {h k : Host} {c : Cache}

/-! ## Raw output as text -/

theorem toValue_isReadable (hw : raw.IsWhole) : raw.toValue.IsReadable depthLimit := by
  refine isReadable_obj (show _ = ["chunk", "js"] from rfl) (by decide) (by decide) ?_
  rw [List.forall_mem_cons, List.forall_mem_singleton]
  exact ⟨texts_isReadable hw.chunk, texts_isReadable hw.js⟩

theorem ofValue_toValue (raw : RawOutput) : RawOutput.ofValue raw.toValue = .ok raw :=
  RawOutput.ofValue_fields raw.chunk raw.js []

theorem readOutput_content (hw : raw.IsWhole) :
    Calculator.readOutput (Cache.content raw) = .ok raw := by
  rw [Calculator.readOutput, Cache.content, parse_indented (toValue_isReadable hw)]
  simp only [ofValue_toValue]
  rfl

/-- All texts of characters in their written form are whole. -/
theorem isWhole_written (chunk js : List String) :
    RawOutput.IsWhole ⟨chunk.map written, js.map written⟩ := by
  constructor
  · exact List.forall_mem_map.mpr fun s _ => written_isWhole s
  · exact List.forall_mem_map.mpr fun s _ => written_isWhole s

/-! ## Seeing paths from the project directory -/

theorem relativeTo_isWhole {base path : List Char} (h : Text.IsWhole (String.ofList path)) :
    Text.IsWhole (String.ofList (RawOutput.relativeTo base path)) := by
  unfold RawOutput.relativeTo
  split
  · next c r ha =>
    split
    · next hc =>
      simp only [Bool.and_eq_true] at hc
      rw [after?_eq_some_iff] at ha
      subst ha
      refine isWhole_of_append ?_ (by decide) h
      have hs := hc.2
      simp only [RawOutput.isSlash, Bool.or_eq_true, beq_iff_eq] at hs
      rcases hs with rfl | rfl <;> rfl
    · exact h
  · exact h

theorem relativized_isWhole (hw : raw.IsWhole) (directory : String) :
    (raw.relativized directory).IsWhole := by
  refine ⟨hw.chunk, ?_⟩
  intro s hs
  obtain ⟨p, hp, rfl⟩ := List.mem_map.mp hs
  refine relativeTo_isWhole ?_
  rw [String.ofList_toList]
  exact hw.js p hp

/-! ## The cache -/

namespace Cache

theorem content_plain (hw : raw.IsWhole) : ∀ d ∈ (content raw).toList, IsPlain d :=
  indented_plain (toValue_isReadable hw)

theorem readText_content (hw : raw.IsWhole) {p : Path}
    (hp : h.Has p (.file (encodeUtf8 (content raw)))) :
    Job.readText p h = .ok (content raw) h :=
  Job.readText_of_plain (content_plain hw) hp

theorem load_of_has (hw : raw.IsWhole) (hp : h.Has c.file (.file (encodeUtf8 (content raw)))) :
    c.load h = .ok raw h := by
  rw [load, isPresent, Job.bind_of_ok (Job.isFile_of_has hp)]
  simp only [Bool.not_true, Bool.false_eq_true, if_false]
  rw [Job.bind_of_ok (Job.outcome_of_ok (readText_content hw hp))]
  simp only [readOutput_content hw]
  rfl

theorem has_of_save (hs : c.save raw h = .ok () k) :
    k.Has c.file (.file (encodeUtf8 (content raw))) := by
  obtain ⟨_, m, -, hwrite⟩ := Job.bind_eq_ok.mp hs
  exact Job.has_of_writeBytes hwrite

structure CanSave (c : Cache) (h : Host) : Prop where
  parent : h.Has c.file.parent .directory
  free : ∃ loc, h.LeadsTo c.file loc ∧ h.files.at? loc ≠ some .directory

theorem exists_save (raw : RawOutput) (hc : c.CanSave h) : ∃ k, c.save raw h = .ok () k := by
  obtain ⟨loc, hl, hfree⟩ := hc.free
  have hwrite : Job.writeText c.file (content raw) h = .ok () _ :=
    Job.writeBytes_eq_ok.mpr ⟨loc, hl, hfree, rfl⟩
  exact ⟨_, Job.bind_eq_ok.mpr ⟨(), h, Job.ensureDirectories_of_has hc.parent, hwrite⟩⟩

end Cache

/-! ## Runs of the resolver -/

namespace Resolver

structure RunsLive (r : Resolver) (registry : Registry) (depsFile baseFile : String) (h : Host)
    (raw : RawOutput) (cache : Cache) (kept : Host) : Prop where
  cache_eq : r.cache = .fit cache
  tool : ∃ (calculator : Calculator) (h₁ h₂ : Host), r.calculator = .fit calculator ∧
    calculator.ensureSupported h = .ok () h₁ ∧
    calculator.calculate registry.entryPoints depsFile baseFile h₁ = .ok raw h₂ ∧
    cache.save (raw.relativized r.projectDirectory.text) h₂ = .ok () kept

structure FallsBack (r : Resolver) (h : Host) (cache : Cache) (found : Host) : Prop where
  cache_eq : r.cache = .fit cache
  tool : ∃ (calculator : Calculator) (e : Failure), r.calculator = .fit calculator ∧
    calculator.ensureSupported h = .error e found ∧ Calculator.isUnsupported e = true

variable {r : Resolver} {registry : Registry} {depsFile baseFile : String} {cache : Cache}

/-- Where the tool can run, its raw output is kept as it is seen from the project directory. -/
theorem loadRaw_of_supported {calculator : Calculator} {m : Host} (hcache : r.cache = .fit cache)
    (htool : r.calculator = .fit calculator) (hm : calculator.ensureSupported h = .ok () m)
    (registry : Registry) (depsFile baseFile : String) :
    r.loadRaw registry depsFile baseFile h =
      (calculator.calculate registry.entryPoints depsFile baseFile >>= fun raw =>
        cache.save (raw.relativized r.projectDirectory.text) >>= fun _ =>
          pure (raw.relativized r.projectDirectory.text)) m := by
  rw [loadRaw, htool, hcache]
  simp only [Part.get]
  rw [Job.bind_of_ok Job.lift_ok, Job.bind_of_ok (Job.outcome_of_ok hm)]
  rfl

theorem loadRaw_of_live {kept : Host}
    (hr : r.RunsLive registry depsFile baseFile h raw cache kept) :
    r.loadRaw registry depsFile baseFile h =
      .ok (raw.relativized r.projectDirectory.text) kept := by
  obtain ⟨hcache, calculator, h₁, h₂, htool, hsupported, hran, hsaved⟩ := hr
  rw [loadRaw_of_supported hcache htool hsupported, Job.bind_of_ok hran, Job.bind_of_ok hsaved]
  rfl

/-- Where the tool cannot run, the cache is read once that has been logged. -/
theorem loadRaw_of_unsupported {calculator : Calculator} {e : Failure} {found : Host}
    (hcache : r.cache = .fit cache) (htool : r.calculator = .fit calculator)
    (he : calculator.ensureSupported h = .error e found)
    (hu : Calculator.isUnsupported e = true) (registry : Registry) (depsFile baseFile : String) :
    ∃ log, r.loadRaw registry depsFile baseFile h = cache.load { found with log := log } := by
  rw [loadRaw, htool, hcache]
  simp only [Part.get]
  rw [Job.bind_of_ok Job.lift_ok, Job.bind_of_ok (Job.outcome_of_error he)]
  simp only [hu, if_true]
  rw [Job.bind_of_ok Job.lift_ok]
  exact ⟨_, rfl⟩

theorem loadRaw_of_fallback {found : Host} (hw : raw.IsWhole) (hr : r.FallsBack h cache found)
    (hc : found.Has cache.file (.file (encodeUtf8 (Cache.content raw)))) :
    ∃ k, r.loadRaw registry depsFile baseFile h = .ok raw k := by
  obtain ⟨hcache, calculator, e, htool, hunsupported, he⟩ := hr
  obtain ⟨log, hload⟩ :=
    loadRaw_of_unsupported hcache htool hunsupported he registry depsFile baseFile
  exact ⟨_, hload.trans (Cache.load_of_has hw (hc.of_same rfl rfl))⟩

/-- The outcome is that of the graph alone. -/
theorem result_compute (hl : r.loadRaw registry depsFile baseFile h = .ok raw k) :
    (r.compute registry depsFile baseFile).result h =
      (resolve registry raw).mapError Inconsistency.failure := by
  rw [Job.result, compute, Job.bind_of_ok hl]
  cases resolve registry raw with
  | error i => rfl
  | ok g => rfl

end Resolver

/-- Raw output of any texts of characters is whole. What the cache keeps of whole raw output is what it
gives back, whatever it held before, and a file that can be written is enough to keep it. So the
outcome of a live run, a graph or an inconsistency, is that of every later run for the same chunks
that falls back on a file with the same content. -/
theorem fallback_outcome_eq_live :
    (∀ chunk js : List String, RawOutput.IsWhole ⟨chunk.map written, js.map written⟩) ∧
    ∀ raw : RawOutput, raw.IsWhole →
      (∀ (c : Cache) (h k : Host), c.save raw h = .ok () k → c.load k = .ok raw k) ∧
      (∀ (c : Cache) (h : Host), c.CanSave h → ∃ k, c.save raw h = .ok () k) ∧
      (∀ (registry : Registry) (live later : Resolver) (cache laterCache : Cache)
        (depsFile baseFile laterDeps laterBase : String) (h kept k found : Host),
        live.RunsLive registry depsFile baseFile h raw cache kept →
        later.FallsBack k laterCache found →
        (∀ content, kept.Has cache.file (.file content) →
          found.Has laterCache.file (.file content)) →
        (live.compute registry depsFile baseFile).result h =
          (resolve registry (raw.relativized live.projectDirectory.text)).mapError
            Inconsistency.failure ∧
        (later.compute registry laterDeps laterBase).result k =
          (live.compute registry depsFile baseFile).result h) := by
  refine ⟨isWhole_written, fun raw hw => ⟨?_, fun c h hc => Cache.exists_save raw hc, ?_⟩⟩
  · intro c h k hs
    exact Cache.load_of_has hw (Cache.has_of_save hs)
  · intro registry live later cache laterCache depsFile baseFile laterDeps laterBase h kept k found
      hlive hlater hsame
    have hout := Resolver.result_compute (Resolver.loadRaw_of_live hlive)
    obtain ⟨_, _, _, _, _, _, _, hsaved⟩ := hlive
    have hkept := hsame _ (Cache.has_of_save hsaved)
    obtain ⟨m, hm⟩ := Resolver.loadRaw_of_fallback (relativized_isWhole hw _) hlater hkept
    exact ⟨hout, (Resolver.result_compute hm).trans hout.symm⟩

/-! ## A tool that is found at first and is missing later -/

/-- A run of the tool that ends well gives what it prints. -/
theorem Calculator.calculate_of_ended {c : Calculator} {entryPoints : List String}
    {depsFile baseFile stdout : String} {stderr : Option String} {raw : RawOutput} {h k : Host}
    (hs : Job.start (Compiler.calculatorCommand c.command entryPoints depsFile baseFile)
      (c.directory.map Path.text) h = .ok (.ended 0 stdout stderr) k)
    (hr : Calculator.readOutput stdout = .ok raw) :
    ∃ m, c.calculate entryPoints depsFile baseFile h = .ok raw m ∧ m.files = k.files ∧
      m.current = k.current := by
  rw [calculate, Job.bind_of_ok (Job.outcome_of_ok hs)]
  simp only [ne_eq, not_true_eq_false, if_false, hr]
  exact ⟨_, rfl, rfl, rfl⟩

def stairTool : Calculator := { command := ["closure-calculate-chunks"] }

def stairCache : Cache := ⟨⟨.relative, ["chunks.json"]⟩⟩

def stairResolver : Resolver :=
  { calculator := .fit stairTool, cache := .fit stairCache, projectDirectory := ⟨.root, ["p"]⟩ }

def printedOutput : RawOutput := ⟨["a:1", "b:2:a", "c:3:b,a"], ["/p/\"a\".js", "/lib/é😀.js"]⟩

def stairHost : Host :=
  { files := [(["p"], .directory)]
    current := ⟨.root, ["p"]⟩
    home := ⟨.root, []⟩
    tools :=
      { found := ["closure-calculate-chunks"]
        behaviours :=
          [("node", [.ends [] 0 "v18.19.0\n" none]),
            ("closure-calculate-chunks", [.ends [] 0 printedOutput.toValue.compact none])] } }

theorem printedOutput_isWhole : printedOutput.IsWhole := by
  constructor
  · rw [printedOutput, List.forall_mem_cons, List.forall_mem_cons, List.forall_mem_singleton]
    exact ⟨(isWhole_of_unmarked (forall_mem_of_all (by decide))).1,
      (isWhole_of_unmarked (forall_mem_of_all (by decide))).1,
      (isWhole_of_unmarked (forall_mem_of_all (by decide))).1⟩
  · rw [printedOutput, List.forall_mem_cons, List.forall_mem_singleton]
    exact ⟨(isWhole_of_unmarked (forall_mem_of_all (by decide))).1,
      (isWhole_of_unmarked (forall_mem_of_all (by decide))).1⟩

def probedHost : Host :=
  { stairHost with runs := [⟨[.str "node", .str "--version"], none⟩] }

def toolsPrinting (stdout : String) : Toolbox :=
  { stairHost.tools with
    behaviours :=
      [("node", [.ends [] 0 "v18.19.0\n" none]),
        ("closure-calculate-chunks", [.ends [] 0 stdout none])] }

theorem stair_calculates_printed {stdout : String} {raw : RawOutput} (files : FileTree)
    (hread : Calculator.readOutput stdout = .ok raw) : ∃ ran,
    stairTool.calculate stairRegistry.entryPoints "deps.js" "base.js"
      { probedHost with files := files, tools := toolsPrinting stdout } = .ok raw ran ∧
    ran.files = files ∧ ran.current = stairHost.current := by
  have hrun : Job.start (Compiler.calculatorCommand stairTool.command stairRegistry.entryPoints
      "deps.js" "base.js") none { probedHost with files := files, tools := toolsPrinting stdout } =
      .ok (.ended 0 stdout none) _ := rfl
  exact Calculator.calculate_of_ended (c := stairTool) hrun hread

theorem stairCache_canSave (hf : h.files = stairHost.files) (hc : h.current = stairHost.current) :
    stairCache.CanSave h := by
  have hp : stairHost.Has stairCache.file.parent .directory := ⟨["p"], ⟨rfl, rfl⟩, rfl⟩
  have hl : stairHost.LeadsTo stairCache.file ["p", "chunks.json"] := ⟨rfl, rfl⟩
  refine ⟨hp.of_same hf hc, _, hl.of_same hf hc, ?_⟩
  rw [hf]
  exact fun h => nomatch h

theorem stair_calculates : ∃ ran,
    stairTool.calculate stairRegistry.entryPoints "deps.js" "base.js" probedHost =
      .ok printedOutput ran ∧ stairCache.CanSave ran := by
  have hread : Calculator.readOutput printedOutput.toValue.compact = .ok printedOutput := by
    decide +kernel
  obtain ⟨ran, hran, hfiles, hcurrent⟩ := stair_calculates_printed stairHost.files hread
  exact ⟨ran, hran, stairCache_canSave hfiles hcurrent⟩

/-- The tool is gone after the live run, so the next one falls back on what that kept. -/
theorem stair_fallback_outcome : printedOutput.IsWhole ∧ ∃ ran kept found,
    stairCache.CanSave ran ∧
    stairCache.save (printedOutput.relativized "/p") ran = .ok () kept ∧
    stairCache.load kept = .ok (printedOutput.relativized "/p") kept ∧
    stairResolver.RunsLive stairRegistry "deps.js" "base.js" stairHost printedOutput stairCache
      kept ∧
    stairResolver.FallsBack { kept with tools := {} } stairCache found ∧
    (stairResolver.compute stairRegistry "deps.js" "base.js").result { kept with tools := {} } =
      (stairResolver.compute stairRegistry "deps.js" "base.js").result stairHost := by
  have hw := printedOutput_isWhole
  obtain ⟨ran, hran, hcan⟩ := stair_calculates
  obtain ⟨hload, hsave, -⟩ := fallback_outcome_eq_live.2 _ (relativized_isWhole hw "/p")
  obtain ⟨kept, hkept⟩ := hsave stairCache ran hcan
  have hlive : stairResolver.RunsLive stairRegistry "deps.js" "base.js" stairHost printedOutput
      stairCache kept := ⟨rfl, stairTool, probedHost, ran, rfl, rfl, hran, hkept⟩
  have hlater : stairResolver.FallsBack { kept with tools := {} } stairCache
      { kept with tools := {} } := ⟨rfl, stairTool, _, rfl, rfl, rfl⟩
  obtain ⟨-, -, houtcome⟩ := fallback_outcome_eq_live.2 _ hw
  refine ⟨hw, ran, kept, _, hcan, hkept, hload _ _ _ hkept, hlive, hlater, ?_⟩
  exact (houtcome _ _ _ _ _ _ _ _ _ _ _ _ _ hlive hlater fun _ hc => hc.of_same rfl rfl).2

end ChunkBuild
