import ChunkBuild.Proofs.Json.LineEnds
import ChunkBuild.Proofs.Resolver.Kept
/-! # Live and cached output

The graph tool's output is read as it is printed and the cache's file with its line ends unified, each
with its own errors. Main statement: the same text is read alike in both places, and no content of the
cache's file makes loading fail in another way, except for text that is nested too deep: neither place
reports that as its own error. -/
namespace ChunkBuild

open ChunkBuild.Text ChunkBuild.Json

inductive Verdict where
  | usable (raw : RawOutput)
  | unusable
  | tooDeep (kind : Nesting)

namespace Calculator

def verdictOn : Except OutputProblem RawOutput → Verdict
  | .ok raw => .usable raw
  | .error (.unreadable (.tooDeep kind)) => .tooDeep kind
  | .error _ => .unusable

def verdict (text : String) : Verdict := verdictOn (readOutput text)

variable {tool : Calculator} {entryPoints : List String} {depsFile baseFile text : String}
  {stderr : Option String} {kind : Nesting} {raw : RawOutput} {h k : Host}

/-- Line ends do not count. -/
theorem verdict_unifyLineEnds (text : String) :
    verdict (String.ofList (unifyLineEnds text.toList)) = verdict text := by
  have halike := parse_unifyLineEnds text
  rw [verdict, verdict, readOutput, readOutput]
  generalize parse text = x at halike
  generalize parse (String.ofList (unifyLineEnds text.toList)) = y at halike
  cases halike with
  | read => rfl
  | malformed => rfl
  | stopped => rfl

/-- The verdict that a text is too deep is the reader's, not that of the shape. -/
theorem verdict_eq_tooDeep : verdict text = .tooDeep kind ↔ parse text = .error (.tooDeep kind) := by
  rw [verdict, readOutput]
  cases parse text with
  | error e => cases e <;> simp [verdictOn]
  | ok v => cases hraw : RawOutput.ofValue v <;> simp [hraw, verdictOn, Except.mapError]

/-- What a run that ends well comes to is a matter of the verdict on its output. -/
theorem result_calculate (hs : Job.start (Compiler.calculatorCommand tool.command entryPoints
      depsFile baseFile) (tool.directory.map Path.text) h = .ok (.ended 0 text stderr) k) :
    match verdict text with
    | .usable raw => (tool.calculate entryPoints depsFile baseFile).result h = .ok raw
    | .unusable => ∃ reason cause, (tool.calculate entryPoints depsFile baseFile).result h =
        .error (tool.failed (Compiler.calculatorCommand tool.command entryPoints depsFile baseFile)
          none reason cause)
    | .tooDeep kind => (tool.calculate entryPoints depsFile baseFile).result h =
        .error (.tooDeep kind.message) := by
  rw [Job.result, calculate, Job.bind_of_ok (Job.outcome_of_ok hs), verdict]
  simp only [ne_eq, not_true_eq_false, if_false]
  cases readOutput text with
  | ok raw => rfl
  | error p =>
    cases p with
    | misshapen p => exact ⟨_, _, rfl⟩
    | unreadable e =>
      cases e with
      | malformed => exact ⟨_, _, rfl⟩
      | integer => exact ⟨_, _, rfl⟩
      | tooDeep => rfl

theorem result_calculate_of_usable (hs : Job.start (Compiler.calculatorCommand tool.command
      entryPoints depsFile baseFile) (tool.directory.map Path.text) h = .ok (.ended 0 text stderr) k)
    (hv : verdict text = .usable raw) :
    (tool.calculate entryPoints depsFile baseFile).result h = .ok raw := by
  have hresult := result_calculate hs
  rwa [hv] at hresult

end Calculator

namespace Cache

/-- The promise for what the cache's file holds: either its content is used, or it is reported as what
cannot be used. -/
def Reports (c : Cache) (h : Host) : Prop :=
  (∃ raw, c.load.result h = .ok raw) ∨
    ∃ reason cause, c.load.result h = .error (c.unusable reason cause)

variable {c : Cache} {h : Host} {bytes : Bytes} {text : String}

theorem result_load_of_text (hp : h.Has c.file (.file bytes)) (ht : decodeUtf8 bytes = .ok text) :
    match Calculator.verdict text with
    | .usable raw => c.load.result h = .ok raw
    | .unusable => ∃ reason cause, c.load.result h = .error (c.unusable reason cause)
    | .tooDeep kind => c.load.result h = .error (.tooDeep kind.message) := by
  rw [result_load_of_has hp, read, ht, ← Calculator.verdict_unifyLineEnds, Calculator.verdict]
  dsimp only
  cases Calculator.readOutput (String.ofList (unifyLineEnds text.toList)) with
  | ok raw => rfl
  | error p =>
    cases p with
    | misshapen p => exact ⟨_, _, rfl⟩
    | unreadable e =>
      cases e with
      | malformed => exact ⟨_, _, rfl⟩
      | integer => exact ⟨_, _, rfl⟩
      | tooDeep => rfl

theorem result_load_of_undecodable {problem : Utf8Problem} (hp : h.Has c.file (.file bytes))
    (ht : decodeUtf8 bytes = .error problem) :
    c.load.result h = .error (c.unusable problem.message (some .undecodable)) := by
  rw [result_load_of_has hp, read, ht]

end Cache

/-- A text that the tool prints and a text that the cache holds are read alike: either both give the same
raw output, or each fails with its own error, or neither reports the text because it is nested too deep.
Loading keeps its promise for exactly the contents that the reader of JSON does not give up for their
depth, and what is given up is nested deeper than the limit. More opening brackets than the limit
are such a text. -/
theorem live_and_cached_alike {cache : Cache} {bytes : Bytes} {g : Host}
    (hfile : g.Has cache.file (.file bytes)) :
    (∀ (tool : Calculator) (entryPoints : List String) (depsFile baseFile text : String)
      (stderr : Option String) (h k : Host), decodeUtf8 bytes = .ok text →
      Job.start (Compiler.calculatorCommand tool.command entryPoints depsFile baseFile)
        (tool.directory.map Path.text) h = .ok (.ended 0 text stderr) k →
      (∃ raw, (tool.calculate entryPoints depsFile baseFile).result h = .ok raw ∧
        cache.load.result g = .ok raw) ∨
      (∃ reason cause why origin, (tool.calculate entryPoints depsFile baseFile).result h =
          .error (tool.failed (Compiler.calculatorCommand tool.command entryPoints depsFile baseFile)
            none reason cause) ∧
        cache.load.result g = .error (cache.unusable why origin)) ∨
      depthLimit < nesting text ∧ ∃ kind : Nesting,
        (tool.calculate entryPoints depsFile baseFile).result h = .error (.tooDeep kind.message) ∧
        cache.load.result g = .error (.tooDeep kind.message)) ∧
    (cache.Reports g ↔
      ∀ text kind, decodeUtf8 bytes = .ok text → parse text ≠ .error (.tooDeep kind)) ∧
    (∀ text kind, decodeUtf8 bytes = .ok text → parse text = .error (.tooDeep kind) →
      depthLimit < nesting text ∧ cache.load.result g = .error (.tooDeep kind.message)) ∧
    ∀ n, depthLimit < n → bytes = encodeUtf8 (String.ofList (List.replicate n '[')) →
      cache.load.result g = .error (.tooDeep Nesting.list.message) := by
  have hdeep : ∀ text kind, decodeUtf8 bytes = .ok text → parse text = .error (.tooDeep kind) →
      cache.load.result g = .error (.tooDeep kind.message) := by
    intro text kind htext hp
    have hcached := Cache.result_load_of_text hfile htext
    rwa [Calculator.verdict_eq_tooDeep.mpr hp] at hcached
  refine ⟨?_, ⟨?_, ?_⟩, ?_, ?_⟩
  · intro tool entryPoints depsFile baseFile text stderr h k htext hrun
    have hlive := Calculator.result_calculate hrun
    have hcached := Cache.result_load_of_text hfile htext
    cases hv : Calculator.verdict text with
    | usable raw =>
      rw [hv] at hlive hcached
      exact .inl ⟨raw, hlive, hcached⟩
    | unusable =>
      rw [hv] at hlive hcached
      obtain ⟨reason, cause, hlive⟩ := hlive
      obtain ⟨why, origin, hcached⟩ := hcached
      exact .inr (.inl ⟨reason, cause, why, origin, hlive, hcached⟩)
    | tooDeep kind =>
      rw [hv] at hlive hcached
      have hnesting := nesting_of_parse (Calculator.verdict_eq_tooDeep.mp hv)
      exact .inr (.inr ⟨hnesting, kind, hlive, hcached⟩)
  · rintro (⟨raw, hraw⟩ | ⟨reason, cause, hunusable⟩) text kind htext hp
    · cases (hdeep text kind htext hp).symm.trans hraw
    · cases (hdeep text kind htext hp).symm.trans hunusable
  · intro hshallow
    cases htext : decodeUtf8 bytes with
    | error problem => exact .inr ⟨_, _, Cache.result_load_of_undecodable hfile htext⟩
    | ok text =>
      have hcached := Cache.result_load_of_text hfile htext
      cases hv : Calculator.verdict text with
      | usable raw =>
        rw [hv] at hcached
        exact .inl ⟨raw, hcached⟩
      | unusable =>
        rw [hv] at hcached
        exact .inr hcached
      | tooDeep kind =>
        exact absurd (Calculator.verdict_eq_tooDeep.mp hv) (hshallow text kind htext)
  · exact fun text kind htext hp => ⟨nesting_of_parse hp, hdeep text kind htext hp⟩
  · rintro n hn rfl
    have hlow : ∀ c ∈ (String.ofList (List.replicate n '[')).toList, c.toNat < firstMark := by
      intro c hc
      rw [String.toList_ofList] at hc
      rw [List.eq_of_mem_replicate hc]
      decide
    obtain ⟨hwhole, hhalf⟩ := isWhole_of_unmarked hlow
    exact hdeep _ _ (decodeUtf8_encodeUtf8 hwhole hhalf) (parse_brackets hn)

/-! ## Output with line ends of another style -/

def brokenLines : String := "\x7b\"chunk\":\r\n[\"a:1\"],\r\"js\":[]\x7d"

def printingHost (stdout : String) : Host := { probedHost with tools := toolsPrinting stdout }

theorem printingHost_runs (stdout : String) : ∃ k,
    Job.start (Compiler.calculatorCommand stairTool.command stairRegistry.entryPoints "deps.js"
      "base.js") (stairTool.directory.map Path.text) (printingHost stdout) =
      .ok (.ended 0 stdout none) k :=
  ⟨_, rfl⟩

def holdingHost (bytes : Bytes) : Host :=
  { stairHost with files := [(["p"], .directory), (["p", "chunks.json"], .file bytes)] }

theorem holdingHost_has (bytes : Bytes) : (holdingHost bytes).Has stairCache.file (.file bytes) :=
  ⟨["p", "chunks.json"], ⟨rfl, rfl⟩, rfl⟩

theorem decode_brokenLines : decodeUtf8 (encodeUtf8 brokenLines) = .ok brokenLines := by
  obtain ⟨hwhole, hhalf⟩ := isWhole_of_unmarked (s := brokenLines) (forall_mem_of_all (by decide))
  exact decodeUtf8_encodeUtf8 hwhole hhalf

/-- The tool and the cache give the same raw output whatever the line ends, the cache cannot be used when
it holds a byte that starts nothing, and a thousand brackets are too deep for it. -/
theorem brokenLines_alike :
    (stairTool.calculate stairRegistry.entryPoints "deps.js" "base.js").result
      (printingHost brokenLines) = .ok ⟨["a:1"], []⟩ ∧
    stairCache.load.result (holdingHost (encodeUtf8 brokenLines)) = .ok ⟨["a:1"], []⟩ ∧
    stairCache.Reports (holdingHost [0xFF]) ∧
    stairCache.load.result
        (holdingHost (encodeUtf8 (String.ofList (List.replicate 1000 '[')))) =
      .error (.tooDeep Nesting.list.message) := by
  have hverdict : Calculator.verdict brokenLines = .usable ⟨["a:1"], []⟩ := by
    have hread : Calculator.readOutput brokenLines = .ok ⟨["a:1"], []⟩ := by decide +kernel
    rw [Calculator.verdict, hread]
    rfl
  obtain ⟨k, hrun⟩ := printingHost_runs brokenLines
  have hlive : (stairTool.calculate stairRegistry.entryPoints "deps.js" "base.js").result
      (printingHost brokenLines) = .ok ⟨["a:1"], []⟩ :=
    Calculator.result_calculate_of_usable hrun hverdict
  obtain ⟨halike, -⟩ := live_and_cached_alike (holdingHost_has (encodeUtf8 brokenLines))
  obtain ⟨-, hreports, -⟩ := live_and_cached_alike (holdingHost_has [0xFF])
  obtain ⟨-, -, -, hbrackets⟩ := live_and_cached_alike
    (holdingHost_has (encodeUtf8 (String.ofList (List.replicate 1000 '['))))
  have hbad : decodeUtf8 [0xFF] = .error ⟨0xFF, 0, 0, .badStart⟩ := rfl
  have hcached : stairCache.load.result (holdingHost (encodeUtf8 brokenLines)) =
      .ok ⟨["a:1"], []⟩ := by
    rcases halike _ _ _ _ _ _ _ _ decode_brokenLines hrun with ⟨raw, hraw, hsame⟩ |
      ⟨_, _, _, _, hfailed, -⟩ | ⟨-, _, hfailed, -⟩
    · cases hlive.symm.trans hraw
      exact hsame
    · cases hlive.symm.trans hfailed
    · cases hlive.symm.trans hfailed
  refine ⟨hlive, hcached, hreports.mpr ?_, hbrackets _ (by decide) rfl⟩
  intro text kind htext
  cases hbad.symm.trans htext

end ChunkBuild
