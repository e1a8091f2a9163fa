import ChunkBuild.Proofs.Resolver.Kept
/-! # The cache over whole runs

Requests for graphs follow one another on one cache, each answered by the tool in one of three ways.
An answer with raw output is kept before the graph is resolved, and the others leave the cache alone.
Main statement: after each request the cache gives back what the latest such answer was kept as. -/
namespace ChunkBuild

open ChunkBuild.Text ChunkBuild.Json

structure Request where
  resolver : Resolver
  registry : Registry
  depsFile : String
  baseFile : String

inductive Answer where
  | unsupported (e : Failure)
  | failed (e : Failure)
  | returned (raw : RawOutput)

namespace Request

def raw (q : Request) : Job RawOutput := q.resolver.loadRaw q.registry q.depsFile q.baseFile

def job (q : Request) : Job Graph := q.resolver.compute q.registry q.depsFile q.baseFile

/-- Raw output as it is kept, its paths seen from the project directory. -/
def kept (q : Request) (raw : RawOutput) : RawOutput :=
  raw.relativized q.resolver.projectDirectory.text

def kept? (q : Request) : Answer → Option RawOutput
  | .returned raw => some (q.kept raw)
  | _ => none

def resolved (q : Request) (raw : RawOutput) : Except Failure Graph :=
  (resolve q.registry raw).mapError Inconsistency.failure

end Request

inductive Calculator.Answers (c : Calculator) (q : Request) (h : Host) : Answer → Host → Prop where
  | unsupported {e k} : c.ensureSupported h = .error e k → isUnsupported e = true →
      Answers c q h (.unsupported e) k
  | unready {e k} : c.ensureSupported h = .error e k → isUnsupported e = false →
      Answers c q h (.failed e) k
  | failed {e m k} : c.ensureSupported h = .ok () m →
      c.calculate q.registry.entryPoints q.depsFile q.baseFile m = .error e k →
      Answers c q h (.failed e) k
  | returned {raw m k} : c.ensureSupported h = .ok () m →
      c.calculate q.registry.entryPoints q.depsFile q.baseFile m = .ok raw k →
      Answers c q h (.returned raw) k

namespace Cache

/-- A request on the cache with its answer. The programs that are started leave the cache alone, and
it can be written when it has to be. -/
structure Serves (c : Cache) (q : Request) (answer : Answer) (h k : Host) : Prop where
  cache_eq : q.resolver.cache = .fit c
  tool : ∃ calculator found, q.resolver.calculator = .fit calculator ∧
    calculator.Answers q h answer found ∧ c.state found = c.state h ∧
    ∀ raw, q.kept? answer = some raw → ∃ m, c.save raw found = .ok () m
  left_eq : k = q.job.left h

/-- Requests one after the other. What happens between them leaves the cache alone. -/
inductive Runs (c : Cache) (h : Host) : List (Request × Answer) → Host → Prop where
  | start {k} : c.state k = c.state h → Runs c h [] k
  | request {done q answer k m n} : Runs c h done k → c.Serves q answer k m →
      c.state n = c.state m → Runs c h (done ++ [(q, answer)]) n

/-- What the latest answer with raw output is kept as. -/
def latest? (done : List (Request × Answer)) : Option RawOutput :=
  (done.filterMap fun x => x.1.kept? x.2).getLast?

end Cache

/-! ## One request -/

def Calculator.probe (c : Calculator) : Run := ⟨[c.runtime, .str "--version"], none⟩

theorem Calculator.runs_ensureSupported (c : Calculator) (h : Host) :
    (c.ensureSupported.left h).runs = h.runs ∨
      (c.ensureSupported.left h).runs = h.runs ++ [c.probe] := by
  have hfound : ∃ found, c.isInstalled h = .ok found h := by
    unfold isInstalled
    cases c.command with
    | nil => exact ⟨_, rfl⟩
    | cons word r => exact ⟨_, rfl⟩
  obtain ⟨found, hfound⟩ := hfound
  rw [ensureSupported, Job.left_bind_of_ok hfound]
  cases found with
  | false => exact .inl rfl
  | true =>
    right
    simp only [Bool.not_true, Bool.false_eq_true, if_false]
    rw [Job.view_left_bind Host.runs, runtimeVersion, Job.view_left_bind Host.runs,
      Job.left_outcome, Job.runs_startValue]
    · rfl
    · intro r
      split
      · split
        · exact .pure _
        · exact .throw _
      · exact .pure _
      · exact .pure _
      · exact .throw _
    · intro version
      split
      · exact .throw _
      · refine .bind (.lift _) fun isBelow => ?_
        split
        · exact .throw _
        · exact .pure _

namespace Request

variable {q : Request} {h found : Host} {calculator : Calculator} {e : Failure}

theorem raw_of_unready (htool : q.resolver.calculator = .fit calculator)
    (he : calculator.ensureSupported h = .error e found)
    (hu : Calculator.isUnsupported e = false) : q.raw h = .error e found := by
  rw [raw, Resolver.loadRaw, htool]
  simp only [Part.get]
  rw [Job.bind_of_ok Job.lift_ok, Job.bind_of_ok (Job.outcome_of_error he)]
  simp only [hu, Bool.false_eq_true, if_false]
  rfl

/-- Resolving the graph changes the log at most. -/
theorem view_left_job {γ : Type} (view : Host → γ)
    (hview : ∀ h log, view { h with log := log } = view h) :
    view (q.job.left h) = view (q.raw.left h) := by
  apply Job.view_left_bind view
  intro raw
  split
  · exact .throw _
  · refine .bind (fun k => ?_) fun _ => .pure _
    exact hview k _

theorem result_job (q : Request) (h : Host) :
    q.job.result h = (q.raw.result h).bind q.resolved := by
  cases hr : q.raw h with
  | ok raw k =>
    rw [Job.result_of_ok hr]
    exact Resolver.result_compute hr
  | error e k =>
    have hjob : q.job h = .error e k := Job.bind_of_error hr
    rw [Job.result_of_error hr, Job.result_of_error hjob]
    rfl

end Request

namespace Cache

variable {c : Cache} {raw : RawOutput} {h k : Host} {q : Request} {answer : Answer} {e : Failure}
  {done : List (Request × Answer)}

theorem Serves.of_unsupported (hs : c.Serves q (.unsupported e) h k) :
    c.state k = c.state h ∧ q.job.result h = (c.load.result h).bind q.resolved ∧
      ∃ calculator, q.resolver.calculator = .fit calculator ∧
        (k.runs = h.runs ∨ k.runs = h.runs ++ [calculator.probe]) := by
  obtain ⟨hcache, ⟨calculator, found, htool, hanswer, hquiet, -⟩, rfl⟩ := hs
  cases hanswer with
  | unsupported he hu =>
    obtain ⟨log, hraw⟩ := Resolver.loadRaw_of_unsupported hcache htool he hu
      q.registry q.depsFile q.baseFile
    have hresult : q.raw.result h = c.load.result h := by
      rw [result_load, ← hquiet, ← state_logged log, ← result_load, Job.result, Request.raw, hraw]
      rfl
    have hleft : q.raw.left h = { found with log := log } := by
      rw [Job.left, Request.raw, hraw]
      exact keeps_load _
    refine ⟨?_, ?_, calculator, htool, ?_⟩
    · rw [Request.view_left_job c.state fun _ log => state_logged log, hleft, state_logged, hquiet]
    · rw [Request.result_job, hresult]
    · have hruns := calculator.runs_ensureSupported h
      rw [Job.left_of_error he] at hruns
      rw [Request.view_left_job Host.runs fun _ _ => rfl, hleft]
      exact hruns

theorem Serves.of_failed (hs : c.Serves q (.failed e) h k) :
    c.state k = c.state h ∧ q.job.result h = .error e := by
  obtain ⟨hcache, ⟨calculator, found, htool, hanswer, hquiet, -⟩, rfl⟩ := hs
  have hraw : q.raw h = .error e found := by
    cases hanswer with
    | unready he hu => exact q.raw_of_unready htool he hu
    | failed hm he =>
      rw [Request.raw, Resolver.loadRaw_of_supported hcache htool hm]
      exact Job.bind_of_error he
  have hjob : q.job h = .error e found := Job.bind_of_error hraw
  refine ⟨?_, Job.result_of_error hjob⟩
  rw [Job.left_of_error hjob]
  exact hquiet

theorem Serves.of_returned (hs : c.Serves q (.returned raw) h k) :
    c.state k = holding (q.kept raw) ∧ q.job.result h = q.resolved (q.kept raw) := by
  obtain ⟨hcache, ⟨calculator, found, htool, hanswer, -, hcan⟩, rfl⟩ := hs
  obtain ⟨saved, hsaved⟩ := hcan _ rfl
  cases hanswer with
  | returned hm hran =>
    have hraw : q.raw h = .ok (q.kept raw) saved :=
      Resolver.loadRaw_of_live ⟨hcache, calculator, _, _, htool, hm, hran, hsaved⟩
    refine ⟨?_, Resolver.result_compute hraw⟩
    rw [Request.view_left_job c.state fun _ log => state_logged log, Job.left_of_ok hraw]
    exact Job.result_entryAt?_eq_iff.mpr (has_of_save hsaved)

/-- A request leaves what is kept of its answer, or else the cache as it was. -/
theorem Serves.state_eq (hs : c.Serves q answer h k) :
    c.state k = (q.kept? answer).elim (c.state h) holding := by
  cases answer with
  | unsupported e => exact hs.of_unsupported.1
  | failed e => exact hs.of_failed.1
  | returned raw => exact hs.of_returned.1

/-! ## Runs -/

theorem latest?_snoc (done : List (Request × Answer)) (q : Request) (answer : Answer) :
    latest? (done ++ [(q, answer)]) = (q.kept? answer).or (latest? done) := by
  rw [latest?, List.filterMap_append]
  cases hk : q.kept? answer with
  | none => simp [latest?, hk]
  | some raw => simp [hk]

/-- By induction on the requests: each one replaces what is kept or leaves it. -/
theorem Runs.state_eq (hr : c.Runs h done k) :
    c.state k = (latest? done).elim (c.state h) holding := by
  induction hr with
  | start hsame => exact hsame
  | @request done q answer k m n _ hserves hsame ih =>
    rw [hsame, hserves.state_eq, ih, latest?_snoc]
    cases q.kept? answer with
    | none => rfl
    | some raw => rfl

end Cache

/-- After each request the cache gives back what the latest answer with raw output was kept as, even
if no graph came of it, or is as it was at first. An answer that the tool is unsupported starts at
most the runtime and leaves the cache alone, and so does a failure. With any other answer the outcome
is a matter of that answer alone. Whole raw output is given back as it is. -/
theorem cache_after_requests (c : Cache) :
    (∀ (h k : Host) (done : List (Request × Answer)), c.Runs h done k →
      (∀ raw, Cache.latest? done = some raw → c.load k = .ok raw.rejoined k) ∧
      (Cache.latest? done = none →
        c.state k = c.state h ∧ c.load.result k = c.load.result h)) ∧
    (∀ (q : Request) (e : Failure) (h k : Host), c.Serves q (.unsupported e) h k →
      c.state k = c.state h ∧ q.job.result h = (c.load.result h).bind q.resolved ∧
        ∃ calculator, q.resolver.calculator = .fit calculator ∧
          (k.runs = h.runs ∨ k.runs = h.runs ++ [calculator.probe])) ∧
    (∀ (q : Request) (e : Failure) (h k : Host), c.Serves q (.failed e) h k →
      c.state k = c.state h ∧ q.job.result h = .error e) ∧
    (∀ (q : Request) (raw : RawOutput) (h k : Host), c.Serves q (.returned raw) h k →
      c.load k = .ok (q.kept raw).rejoined k ∧ q.job.result h = q.resolved (q.kept raw)) ∧
    ∀ raw : RawOutput, raw.IsWhole → raw.rejoined = raw := by
  refine ⟨fun h k done hr => ⟨fun raw hlatest => ?_, fun hlatest => ?_⟩,
    fun q e h k hs => hs.of_unsupported, fun q e h k hs => hs.of_failed,
    fun q raw h k hs => ⟨?_, hs.of_returned.2⟩, fun raw hw => RawOutput.rejoined_of_isWhole hw⟩
  · apply Cache.load_of_holding
    rw [hr.state_eq, hlatest]
    rfl
  · have hsame : c.state k = c.state h := by
      rw [hr.state_eq, hlatest]
      rfl
    refine ⟨hsame, ?_⟩
    rw [Cache.result_load, Cache.result_load, hsame]
  · exact Cache.load_of_holding hs.of_returned.1

/-! ## A tool that prints something -/

def stairRequest : Request := ⟨stairResolver, stairRegistry, "deps.js", "base.js"⟩

theorem stair_serves {stdout : String} {raw : RawOutput}
    (hread : Calculator.readOutput stdout = .ok raw) :
    ∃ k, stairCache.Serves stairRequest (.returned raw)
      { stairHost with tools := toolsPrinting stdout } k := by
  obtain ⟨ran, hran, hfiles, hcurrent⟩ := stair_calculates_printed stairHost.files hread
  have hanswer : stairTool.Answers stairRequest { stairHost with tools := toolsPrinting stdout }
      (.returned raw) ran := .returned rfl hran
  refine ⟨_, rfl, ⟨stairTool, ran, rfl, hanswer, ?_, ?_⟩, rfl⟩
  · exact Job.result_entryAt?_of_same hfiles hcurrent
  · intro kept _
    exact Cache.exists_save kept (stairCache_canSave hfiles hcurrent)

/-- The request after the tool is gone changes nothing. -/
theorem stair_kept_after_both : ∃ e k,
    stairCache.Runs { stairHost with tools := toolsPrinting printedOutput.toValue.compact }
      [(stairRequest, .returned printedOutput), (stairRequest, .unsupported e)] k ∧
    stairCache.load k = .ok (printedOutput.relativized "/p") k := by
  have hread : Calculator.readOutput printedOutput.toValue.compact = .ok printedOutput := by
    decide +kernel
  obtain ⟨k, hk⟩ := stair_serves hread
  have hgone : stairCache.Serves stairRequest (.unsupported _) { k with tools := {} } _ :=
    ⟨rfl, ⟨stairTool, { k with tools := {} }, rfl, .unsupported rfl rfl, rfl, fun _ h => nomatch h⟩,
      rfl⟩
  have hruns := ((Cache.Runs.start rfl).request hk (n := { k with tools := {} })
    (Job.result_entryAt?_of_same rfl rfl)).request hgone rfl
  obtain ⟨hrun, -, -, -, hwhole⟩ := cache_after_requests stairCache
  have hload := (hrun _ _ _ hruns).1 (printedOutput.relativized "/p") rfl
  rw [hwhole _ (relativized_isWhole printedOutput_isWhole "/p")] at hload
  exact ⟨_, _, hruns, hload⟩

def blockedHost : Host :=
  { stairHost with
    files := [(["p"], .directory), (["p", "chunks.json"], .directory)]
    tools := toolsPrinting printedOutput.toValue.compact }

theorem blocked_keeps_nothing : ∃ found,
    stairTool.Answers stairRequest blockedHost (.returned printedOutput) found ∧
    stairCache.state found = stairCache.state blockedHost ∧
    ∀ raw m, stairCache.load (stairRequest.job.left blockedHost) ≠ .ok raw m := by
  have hread : Calculator.readOutput printedOutput.toValue.compact = .ok printedOutput := by
    decide +kernel
  obtain ⟨ran, hran, hfiles, hcurrent⟩ := stair_calculates_printed blockedHost.files hread
  have hsame : stairCache.state ran = stairCache.state blockedHost :=
    Job.result_entryAt?_of_same hfiles hcurrent
  have hparent : blockedHost.Has stairCache.file.parent .directory := ⟨["p"], ⟨rfl, rfl⟩, rfl⟩
  have hblocked : blockedHost.Has stairCache.file .directory :=
    ⟨["p", "chunks.json"], ⟨rfl, rfl⟩, rfl⟩
  obtain ⟨e, he⟩ := Cache.save_of_directory (hparent.of_same hfiles hcurrent)
    (hblocked.of_same hfiles hcurrent) (stairRequest.kept printedOutput)
  have hraw : stairRequest.raw blockedHost = .error e ran := by
    refine (Resolver.loadRaw_of_supported rfl rfl rfl _ _ _).trans ((Job.bind_of_ok hran).trans ?_)
    exact Job.bind_of_error he
  have hjob : stairRequest.job blockedHost = .error e ran := Job.bind_of_error hraw
  refine ⟨ran, .returned rfl hran, hsame, fun raw m hm => ?_⟩
  rw [Job.left_of_error hjob] at hm
  have hload := Cache.result_load stairCache ran
  rw [hsame, Cache.state, Job.result_of_ok (Job.entryAt?_of_has hblocked), Job.result_of_ok hm]
    at hload
  cases hload

def halvesOutput : RawOutput := ⟨[String.ofList (ofPoints [0xD83D, 0xDE00] ++ [':', '1'])], []⟩

theorem halves_saved_as_one : ∃ k, stairCache.save halvesOutput stairHost = .ok () k ∧
    ∀ m, stairCache.load k ≠ .ok halvesOutput m := by
  obtain ⟨k, hk⟩ := Cache.exists_save halvesOutput (stairCache_canSave rfl rfl)
  have hload := Cache.load_of_holding (Job.result_entryAt?_eq_iff.mpr (Cache.has_of_save hk))
  have hjoined : halvesOutput.rejoined ≠ halvesOutput := by decide +kernel
  refine ⟨k, hk, fun m hm => hjoined ?_⟩
  rw [hload] at hm
  exact (EStateM.Result.ok.inj hm).1

/-- What was returned is not always kept: where a directory stands nothing is, and two halves become
one character. -/
theorem kept_otherwise_than_returned :
    (∃ found, stairTool.Answers stairRequest blockedHost (.returned printedOutput) found ∧
      stairCache.state found = stairCache.state blockedHost ∧
      ∀ raw m, stairCache.load (stairRequest.job.left blockedHost) ≠ .ok raw m) ∧
    ∃ k, stairCache.save halvesOutput stairHost = .ok () k ∧
      ∀ m, stairCache.load k ≠ .ok halvesOutput m :=
  ⟨blocked_keeps_nothing, halves_saved_as_one⟩

end ChunkBuild
