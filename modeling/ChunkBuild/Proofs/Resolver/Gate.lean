import ChunkBuild.Proofs.Host.Looking
import ChunkBuild.Proofs.Resolver.Runs
import ChunkBuild.Proofs.Resolver.Version
/-! # Whether the tool can run

The tool is checked in three steps: its command is looked up, its runtime is asked for a version, and
that is compared with the least one. Main statement: the check ends well where the tool can run and says
elsewhere that it is unsupported, so that the cache is read. Two things break the check off instead: a
name of the runtime that the system cannot take, and numbers with more digits than are read or written. -/
namespace ChunkBuild

open ChunkBuild.Text ChunkBuild.Json

variable {c : Calculator} {h : Host} {least : Int} {ds es : List Nat} {node : String}

inductive Probe where
  /-- The system does not take its name. -/
  | unstartable (e : Failure)
  | absent
  | denied
  | ended (exit : Int) (stdout : String) (stderr : Option String)

namespace Probe

variable {probe : Probe}

/-- What becomes of a name on a host. Asking for a version writes no files. -/
inductive Met (h : Host) (node : String) : Probe → Prop where
  | unstartable {e : Failure} : h.startProblem? [node, "--version"] = some e →
    Met h node (.unstartable e)
  | absent : h.startProblem? [node, "--version"] = none → (h.tools.next node).1 = none →
    Met h node .absent
  | denied : h.startProblem? [node, "--version"] = none →
    (h.tools.next node).1 = some .denied → Met h node .denied
  | ended {exit : Int} {stdout : String} {stderr : Option String} :
    h.startProblem? [node, "--version"] = none →
    (h.tools.next node).1 = some (.ends [] exit stdout stderr) →
    Met h node (.ended exit stdout stderr)

def ending (node : String) : Probe → Except Failure Ending
  | .unstartable e => .error e
  | .absent => .ok (.refused { problem := .notFound, path := node })
  | .denied => .ok (.refused { problem := .denied, path := node })
  | .ended exit stdout stderr => .ok (.ended exit stdout stderr)

def version? : Probe → Except Failure (Option Int)
  | .unstartable e => .error e
  | .ended exit stdout _ =>
    if exit = 0 then (Calculator.version? stdout).mapError fun p => .badValue p.message else .ok none
  | .absent | .denied => .ok none

inductive Prints : Probe → List Nat → Prop where
  | intro {stdout stderr ds} : Calculator.HasVersion stdout ds → Prints (.ended 0 stdout stderr) ds

theorem Prints.unique (hd : probe.Prints ds) (he : probe.Prints es) : ds = es := by
  cases hd with
  | intro hd =>
    cases he with
    | intro he => exact hd.unique he

theorem Prints.version?_eq (hd : probe.Prints ds) : probe.version? =
    if ds.length > digitLimit then .error (.badValue (IntegerProblem.tooLong ds.length).message)
    else .ok (some (ofDigits ds)) := by
  cases hd with
  | intro hd =>
    rw [version?, if_pos rfl, Calculator.version?_of_hasVersion hd]
    split
    · rfl
    · rfl

theorem version?_of_silent (hstarts : ∀ e, probe ≠ .unstartable e)
    (hsilent : ∀ ds, ¬ probe.Prints ds) : probe.version? = .ok none := by
  cases probe with
  | unstartable e => exact absurd rfl (hstarts e)
  | absent => rfl
  | denied => rfl
  | ended exit stdout stderr =>
    rw [version?]
    split_ifs with hexit
    · subst hexit
      rw [Calculator.version?_of_no_version fun ds hd => hsilent ds (.intro hd)]
      rfl
    · rfl

/-- The system does not take a name that it cannot write, or one with a NUL character. -/
theorem Met.refusal {e : Failure} (hm : Met h node (.unstartable e)) :
    (∃ message, e = .unencodable message) ∨ ∃ message, e = .badValue message := by
  cases hm with
  | unstartable hproblem =>
    unfold Host.startProblem? at hproblem
    split at hproblem
    · obtain ⟨text, -, htext⟩ := List.exists_of_findSome?_eq_some hproblem
      unfold pathProblem? at htext
      split at htext
      · cases htext
        exact .inl ⟨_, rfl⟩
      · cases htext
        exact .inr ⟨_, rfl⟩
      · cases htext
    · cases hproblem

/-- Asking the runtime leaves the files alone. -/
theorem Met.exists_startValue (hm : probe.Met h node) : ∃ runs tools,
    Job.startValue (.str node) ["--version"] none h =
      Job.lift (probe.ending node) { h with runs := runs, tools := tools } := by
  have hnamed (run : Run) {behaved : Option Behaviour} (hnext : (h.tools.next node).1 = behaved) :
      (h.recording run).tools.next node = (behaved, (h.tools.next node).2) := Prod.ext hnext rfl
  cases hm with
  | unstartable hproblem => exact ⟨_, h.tools, Job.startValue_of_problem hproblem⟩
  | absent hstarts hnext =>
    rw [Job.startValue_of_no_problem hstarts, Job.startValue.named, Job.get_bind, hnamed _ hnext]
    exact ⟨_, h.tools, rfl⟩
  | denied hstarts hnext =>
    rw [Job.startValue_of_no_problem hstarts, Job.startValue.named, Job.get_bind, hnamed _ hnext]
    exact ⟨_, _, rfl⟩
  | ended hstarts hnext =>
    rw [Job.startValue_of_no_problem hstarts, Job.startValue.named, Job.get_bind, hnamed _ hnext]
    exact ⟨_, _, rfl⟩

end Probe

namespace Calculator

variable {probe : Probe}

structure Faces (c : Calculator) (h : Host) (least : Int) (probe : Probe) : Prop where
  runtime : ∃ node, c.runtime = .str node ∧ probe.Met h node
  least_eq : c.leastVersion = .int least

def IsFound (c : Calculator) (h : Host) : Prop :=
  ∃ word r, c.command = word :: r ∧ word ∈ h.tools.found

structure CanRun (c : Calculator) (h : Host) (least : Int) (probe : Probe) : Prop where
  found : c.IsFound h
  version : ∃ ds, probe.Prints ds ∧ least ≤ ofDigits ds

/-- What breaks off the check: a runtime whose name the system does not take, a version with too many
digits to be read, or one that is below a least version with too many digits to be written. -/
inductive BreaksOff (c : Calculator) (h : Host) (least : Int) (probe : Probe) : Failure → Prop where
  | unstartable {e : Failure} : c.IsFound h → probe = .unstartable e → BreaksOff c h least probe e
  | endless {ds : List Nat} : c.IsFound h → probe.Prints ds → digitLimit < ds.length →
    BreaksOff c h least probe (.badValue (IntegerProblem.tooLong ds.length).message)
  | unwritten {ds : List Nat} : c.IsFound h → probe.Prints ds → ¬ digitLimit < ds.length →
    (ofDigits ds : Int) < least → 10 ^ digitLimit ≤ least.natAbs →
    BreaksOff c h least probe (.badValue IntegerProblem.unprintable.message)

inductive Decision (c : Calculator) (h : Host) (least : Int) (probe : Probe) :
    Except Failure Unit → Prop where
  | missing (hfound : ¬ c.IsFound h) : Decision c h least probe
      (.error (c.unsupported ("'" ++ c.command.head?.getD "" ++ "' not found on PATH") []))
  | silent (hfound : c.IsFound h) (hstarts : ∀ e, probe ≠ .unstartable e)
      (hsilent : ∀ ds, ¬ probe.Prints ds) : Decision c h least probe
      (.error (c.unsupported "Node.js runtime not available" []))
  | broken {e : Failure} (hbreaks : c.BreaksOff h least probe e) :
      Decision c h least probe (.error e)
  | outdated {ds : List Nat} (hfound : c.IsFound h) (hprints : probe.Prints ds)
      (hshort : ¬ digitLimit < ds.length) (hold : (ofDigits ds : Int) < least)
      (hwritten : ¬ 10 ^ digitLimit ≤ least.natAbs) : Decision c h least probe
      (.error (c.unsupported
        ("requires Node.js v" ++ intText least ++ " or later, found v" ++ natText (ofDigits ds))
        [("node_version", .int (ofDigits ds))]))
  | supported {ds : List Nat} (hfound : c.IsFound h) (hprints : probe.Prints ds)
      (hshort : ¬ digitLimit < ds.length) (hnew : ¬ (ofDigits ds : Int) < least) :
      Decision c h least probe (.ok ())

/-! ## The three steps -/

theorem isInstalled_of_found (hfound : c.IsFound h) : c.isInstalled h = .ok true h := by
  obtain ⟨word, r, hcommand, hword⟩ := hfound
  rw [isInstalled, hcommand]
  have hcontains : h.tools.found.contains word = true := List.contains_iff_mem.mpr hword
  exact congrArg (EStateM.Result.ok · h) hcontains

theorem isInstalled_of_not_found (hfound : ¬ c.IsFound h) : c.isInstalled h = .ok false h := by
  unfold isInstalled
  cases hcommand : c.command with
  | nil => rfl
  | cons word r =>
    have hcontains : h.tools.found.contains word = false := by
      rw [← Bool.not_eq_true, List.contains_iff_mem]
      exact fun hword => hfound ⟨word, r, hcommand, hword⟩
    exact congrArg (EStateM.Result.ok · h) hcontains

theorem Faces.exists_runtimeVersion (hf : c.Faces h least probe) : ∃ runs tools,
    c.runtimeVersion h = Job.lift probe.version? { h with runs := runs, tools := tools } := by
  obtain ⟨node, hnode, hmet⟩ := hf.runtime
  obtain ⟨runs, tools, hstart⟩ := hmet.exists_startValue
  refine ⟨runs, tools, ?_⟩
  cases probe with
  | unstartable e =>
    rw [runtimeVersion, hnode, Job.bind_of_ok (Job.outcome_of_error hstart)]
    obtain ⟨message, rfl⟩ | ⟨message, rfl⟩ := hmet.refusal
    · rfl
    · rfl
  | absent =>
    rw [runtimeVersion, hnode, Job.bind_of_ok (Job.outcome_of_ok hstart)]
    rfl
  | denied =>
    rw [runtimeVersion, hnode, Job.bind_of_ok (Job.outcome_of_ok hstart)]
    rfl
  | ended exit stdout stderr =>
    rw [runtimeVersion, hnode, Job.bind_of_ok (Job.outcome_of_ok hstart)]
    -- the status can be split only apart from the host that the run leaves
    refine congrFun (g := Job.lift _) ?_ _
    split
    · next stdout stderr heq =>
      cases heq
      rw [Probe.version?, if_pos rfl]
      split
      · next v hread =>
        rw [hread]
        rfl
      · next p hread =>
        rw [hread]
        rfl
    · next hother heq =>
      cases heq
      have hexit : exit ≠ 0 := fun hzero => hother stdout stderr (hzero ▸ rfl)
      rw [Probe.version?, if_neg hexit]
      rfl
    · next heq => cases heq
    · next heq => cases heq

theorem ensureSupported_of_version {version : Int} {k : Host} (hfound : c.IsFound h)
    (hleast : c.leastVersion = .int least) (hversion : c.runtimeVersion h = .ok (some version) k) :
    c.ensureSupported h =
      Job.lift (if version < least then .error (c.outdated version) else .ok ()) k := by
  rw [ensureSupported, Job.bind_of_ok (isInstalled_of_found hfound)]
  refine (Job.bind_of_ok hversion).trans ?_
  dsimp only
  rw [hleast, isBelow, Job.bind_of_ok Job.lift_ok]
  simp only [decide_eq_true_eq]
  split_ifs <;> rfl

theorem outdated_eq {n : Nat} (hleast : c.leastVersion = .int least) : c.outdated n =
    if 10 ^ digitLimit ≤ least.natAbs then .badValue IntegerProblem.unprintable.message
    else c.unsupported ("requires Node.js v" ++ intText least ++ " or later, found v" ++ natText n)
      [("node_version", .int n)] := by
  have hunprintable : (Value.int least).isUnprintable = true ↔
      10 ^ digitLimit ≤ least.natAbs := by
    rw [Value.isUnprintable, Nat.pow_eq, decide_eq_true_eq]
  have hdisplay : (Value.int least).display = intText least := rfl
  have hfound : intText (n : Int) = natText n := rfl
  rw [outdated, hleast, hdisplay, hfound]
  exact if_congr hunprintable rfl rfl

/-- The check ends in one of five ways. Nothing that the cache depends on is changed. -/
theorem Faces.exists_decision (hf : c.Faces h least probe) : ∃ r runs tools,
    c.Decision h least probe r ∧
      c.ensureSupported h = Job.lift r { h with runs := runs, tools := tools } := by
  -- the cases follow the order of the checks, each of them on the host that the one before leaves
  by_cases hfound : c.IsFound h
  · obtain ⟨runs, tools, hversion⟩ := hf.exists_runtimeVersion
    have hbroken {e : Failure} (he : probe.version? = .error e) :
        c.ensureSupported h = Job.lift (.error e) { h with runs := runs, tools := tools } := by
      rw [he] at hversion
      rw [ensureSupported, Job.bind_of_ok (isInstalled_of_found hfound)]
      exact Job.bind_of_error hversion
    by_cases hsilent : ∀ ds, ¬ probe.Prints ds
    · by_cases hstarts : ∃ e, probe = .unstartable e
      · obtain ⟨e, rfl⟩ := hstarts
        exact ⟨_, runs, tools, .broken (.unstartable hfound rfl), hbroken rfl⟩
      · rw [not_exists] at hstarts
        refine ⟨_, runs, tools, .silent hfound hstarts hsilent, ?_⟩
        rw [Probe.version?_of_silent hstarts hsilent] at hversion
        rw [ensureSupported, Job.bind_of_ok (isInstalled_of_found hfound)]
        exact Job.bind_of_ok hversion
    · rw [not_forall_not] at hsilent
      obtain ⟨ds, hprints⟩ := hsilent
      have hread := hprints.version?_eq
      by_cases hlong : digitLimit < ds.length
      · rw [if_pos hlong] at hread
        exact ⟨_, runs, tools, .broken (.endless hfound hprints hlong), hbroken hread⟩
      · rw [if_neg hlong] at hread
        rw [hread] at hversion
        have hcheck := ensureSupported_of_version hfound hf.least_eq hversion
        by_cases hold : (ofDigits ds : Int) < least
        · rw [if_pos hold, outdated_eq hf.least_eq] at hcheck
          by_cases hwide : 10 ^ digitLimit ≤ least.natAbs
          · rw [if_pos hwide] at hcheck
            exact ⟨_, runs, tools, .broken (.unwritten hfound hprints hlong hold hwide), hcheck⟩
          · rw [if_neg hwide] at hcheck
            exact ⟨_, runs, tools, .outdated hfound hprints hlong hold hwide, hcheck⟩
        · rw [if_neg hold] at hcheck
          exact ⟨_, runs, tools, .supported hfound hprints hlong hold, hcheck⟩
  · refine ⟨_, h.runs, h.tools, .missing hfound, ?_⟩
    rw [ensureSupported, Job.bind_of_ok (isInstalled_of_not_found hfound)]
    rfl

/-! ## What decides -/

theorem canRun_iff (hfound : c.IsFound h) (hprints : probe.Prints ds) :
    c.CanRun h least probe ↔ least ≤ ofDigits ds := by
  constructor
  · rintro ⟨-, es, hes, hnew⟩
    rwa [hprints.unique hes]
  · exact fun hnew => ⟨hfound, ds, hprints, hnew⟩

variable {e : Failure} {r : Except Failure Unit}

theorem BreaksOff.found (hb : c.BreaksOff h least probe e) : c.IsFound h := by
  cases hb with
  | unstartable hfound => exact hfound
  | endless hfound => exact hfound
  | unwritten hfound => exact hfound

/-- Once a version is printed, only too many digits can break off the check. -/
theorem BreaksOff.digits (hb : c.BreaksOff h least probe e) (hprints : probe.Prints ds) :
    digitLimit < ds.length ∨ (ofDigits ds : Int) < least ∧ 10 ^ digitLimit ≤ least.natAbs := by
  cases hb with
  | unstartable _ hstart =>
    subst hstart
    cases hprints
  | endless _ hes hlong =>
    rw [hprints.unique hes]
    exact .inl hlong
  | unwritten _ hes _ hold hwide =>
    rw [hprints.unique hes]
    exact .inr ⟨hold, hwide⟩

theorem BreaksOff.unique {e' : Failure} (hb : c.BreaksOff h least probe e)
    (hb' : c.BreaksOff h least probe e') : e = e' := by
  cases hb with
  | unstartable _ hstart =>
    subst hstart
    cases hb' with
    | unstartable _ hstart => exact Probe.unstartable.inj hstart
    | endless _ hprints => cases hprints
    | unwritten _ hprints => cases hprints
  | endless _ hprints hlong =>
    cases hb' with
    | unstartable _ hstart =>
      subst hstart
      cases hprints
    | endless _ hes => rw [hprints.unique hes]
    | unwritten _ hes hshort =>
      rw [hprints.unique hes] at hlong
      exact absurd hlong hshort
  | unwritten _ hprints hshort =>
    cases hb' with
    | unstartable _ hstart =>
      subst hstart
      cases hprints
    | endless _ hes hlong =>
      rw [hprints.unique hes] at hshort
      exact absurd hlong hshort
    | unwritten => rfl

/-- What breaks off the check does not say that the tool is unsupported. -/
theorem BreaksOff.isUnsupported (hf : c.Faces h least probe) (hb : c.BreaksOff h least probe e) :
    isUnsupported e = false := by
  cases hb with
  | unstartable _ hstart =>
    subst hstart
    obtain ⟨node, -, hmet⟩ := hf.runtime
    obtain ⟨message, rfl⟩ | ⟨message, rfl⟩ := hmet.refusal
    · rfl
    · rfl
  | endless => rfl
  | unwritten => rfl

/-- The five ways to end are of three kinds. -/
theorem Decision.kinds (hd : c.Decision h least probe r) :
    (r = .ok () ∧ c.CanRun h least probe ∧ ∀ e, ¬ c.BreaksOff h least probe e) ∨
    (∃ reason context, r = .error (c.unsupported reason context) ∧
      ¬ c.CanRun h least probe ∧ ∀ e, ¬ c.BreaksOff h least probe e) ∨
    ∃ e, r = .error e ∧ c.BreaksOff h least probe e := by
  cases hd with
  | missing hfound =>
    exact .inr (.inl ⟨_, _, rfl, fun hrun => hfound hrun.found, fun e hends => hfound hends.found⟩)
  | silent hfound hstarts hsilent =>
    refine .inr (.inl ⟨_, _, rfl, ?_, fun e hends => ?_⟩)
    · rintro ⟨-, ds, hprints, -⟩
      exact hsilent ds hprints
    · cases hends with
      | unstartable _ hstart => exact hstarts e hstart
      | endless _ hprints => exact hsilent _ hprints
      | unwritten _ hprints => exact hsilent _ hprints
  | broken hbreaks => exact .inr (.inr ⟨_, rfl, hbreaks⟩)
  | outdated hfound hprints hshort hold hwritten =>
    refine .inr (.inl ⟨_, _, rfl, ?_, fun e hends => ?_⟩)
    · rw [canRun_iff hfound hprints]
      exact Int.not_le.mpr hold
    · rcases hends.digits hprints with hlong | ⟨-, hwide⟩
      · exact hshort hlong
      · exact hwritten hwide
  | supported hfound hprints hshort hnew =>
    refine .inl ⟨rfl, (canRun_iff hfound hprints).mpr (Int.not_lt.mp hnew), fun e hends => ?_⟩
    rcases hends.digits hprints with hlong | ⟨hold, -⟩
    · exact hshort hlong
    · exact hnew hold

theorem Decision.eq_ok_iff (hd : c.Decision h least probe r) :
    r = .ok () ↔ c.CanRun h least probe ∧ ∀ e, ¬ c.BreaksOff h least probe e := by
  obtain ⟨rfl, hrun, hreads⟩ | ⟨reason, context, rfl, hrun, -⟩ | ⟨e, rfl, hbreaks⟩ := hd.kinds
  · exact iff_of_true rfl ⟨hrun, hreads⟩
  · exact iff_of_false (by simp) fun hok => hrun hok.1
  · exact iff_of_false (by simp) fun hok => hok.2 e hbreaks

theorem Decision.eq_unsupported_iff (hf : c.Faces h least probe) (hd : c.Decision h least probe r) :
    (∃ reason context, r = .error (c.unsupported reason context)) ↔
      ¬ c.CanRun h least probe ∧ ∀ e, ¬ c.BreaksOff h least probe e := by
  obtain ⟨rfl, hrun, -⟩ | ⟨reason, context, rfl, hrun, hreads⟩ | ⟨e, rfl, hbreaks⟩ := hd.kinds
  · exact iff_of_false (by simp) fun hno => hno.1 hrun
  · exact iff_of_true ⟨reason, context, rfl⟩ ⟨hrun, hreads⟩
  · refine iff_of_false ?_ fun hno => hno.2 e hbreaks
    rintro ⟨reason, context, he⟩
    cases Except.error.inj he
    cases hbreaks.isUnsupported hf

theorem Decision.breaksOff_iff (hf : c.Faces h least probe) (hd : c.Decision h least probe r) :
    (r = .error e ∧ isUnsupported e = false) ↔ c.BreaksOff h least probe e := by
  constructor
  · rintro ⟨rfl, hother⟩
    obtain ⟨hr, -⟩ | ⟨reason, context, hr, -⟩ | ⟨e', hr, hbreaks⟩ := hd.kinds
    · cases hr
    · cases Except.error.inj hr
      cases hother
    · rwa [Except.error.inj hr]
  · intro hbreaks
    refine ⟨?_, hbreaks.isUnsupported hf⟩
    obtain ⟨-, -, hreads⟩ | ⟨_, _, -, -, hreads⟩ | ⟨e', rfl, hbreaks'⟩ := hd.kinds
    · exact absurd hbreaks (hreads e)
    · exact absurd hbreaks (hreads e)
    · rw [hbreaks.unique hbreaks']

end Calculator

namespace Request

variable {q : Request} {cache : Cache} {reason : String} {context : Fields Value}
  {runs : List Run} {tools : Toolbox}

/-- Where the tool is unsupported, the graph is that of what the cache gives back. -/
theorem result_job_of_unsupported (htool : q.resolver.calculator = .fit c)
    (hcache : q.resolver.cache = .fit cache)
    (he : c.ensureSupported h =
      .error (c.unsupported reason context) { h with runs := runs, tools := tools }) :
    q.job.result h = (cache.load.result h).bind q.resolved := by
  obtain ⟨log, hload⟩ := Resolver.loadRaw_of_unsupported hcache htool he rfl q.registry q.depsFile
    q.baseFile
  have hstate : cache.state { h with runs := runs, tools := tools, log := log } = cache.state h :=
    Job.result_entryAt?_of_same rfl rfl
  rw [result_job, Job.result, raw, hload, ← Job.result, Cache.result_load, hstate,
    ← Cache.result_load]

end Request

/-- The check of the tool on every host and with every probe of its runtime. It ends well exactly when
the first word of the command is found, the runtime ends well and the number in the first version that
it prints is at least the least one. Else the tool is unsupported, and the graph is that of what the
cache gives back. What breaks the check off is the exception to both: a runtime whose name the system
does not take, a first version of more digits than are read, and a least version of more digits than are
written that the version is below. Then the request fails in the same way, and the cache is not read. -/
theorem runtime_gate_decides {probe : Probe} (hf : c.Faces h least probe) :
    (c.ensureSupported.result h = .ok () ↔
      c.CanRun h least probe ∧ ∀ e, ¬ c.BreaksOff h least probe e) ∧
    ((∃ reason context, c.ensureSupported.result h = .error (c.unsupported reason context)) ↔
      ¬ c.CanRun h least probe ∧ ∀ e, ¬ c.BreaksOff h least probe e) ∧
    (∀ e, (c.ensureSupported.result h = .error e ∧ Calculator.isUnsupported e = false) ↔
      c.BreaksOff h least probe e) ∧
    ∀ (q : Request) (cache : Cache), q.resolver.calculator = .fit c →
      q.resolver.cache = .fit cache →
      (¬ c.CanRun h least probe → (∀ e, ¬ c.BreaksOff h least probe e) →
        q.job.result h = (cache.load.result h).bind q.resolved) ∧
      ∀ e, c.BreaksOff h least probe e → q.job.result h = .error e := by
  obtain ⟨r, runs, tools, hdecision, hcheck⟩ := hf.exists_decision
  have hresult : c.ensureSupported.result h = r := by
    rw [Job.result, hcheck, ← Job.result, Job.result_lift]
  rw [hresult]
  refine ⟨hdecision.eq_ok_iff, hdecision.eq_unsupported_iff hf, fun e => hdecision.breaksOff_iff hf,
    fun q cache htool hcache => ⟨fun hrun hreads => ?_, fun e hbreaks => ?_⟩⟩
  · obtain ⟨reason, context, rfl⟩ := (hdecision.eq_unsupported_iff hf).mpr ⟨hrun, hreads⟩
    exact Request.result_job_of_unsupported htool hcache hcheck
  · obtain ⟨rfl, hother⟩ := (hdecision.breaksOff_iff hf).mpr hbreaks
    rw [Request.result_job, Job.result_of_error (Request.raw_of_unready htool hcheck hother)]
    rfl

/-! ## An old runtime and an endless version -/

def hostPrinting (stdout : String) : Host :=
  { stairHost with
    tools :=
      { found := ["closure-calculate-chunks"]
        behaviours := [("node", [.ends [] 0 stdout none])] } }

def endlessVersion : String :=
  String.ofList ('v' :: (List.replicate (digitLimit + 1) '0' ++ ['.']))

theorem stairTool_faces (stdout : String) :
    stairTool.Faces (hostPrinting stdout) 14 (.ended 0 stdout none) :=
  ⟨⟨"node", rfl, .ended rfl rfl⟩, rfl⟩

theorem stairTool_found (stdout : String) : stairTool.IsFound (hostPrinting stdout) :=
  ⟨"closure-calculate-chunks", [], rfl, List.mem_cons_self⟩

theorem endlessVersion_hasVersion :
    Calculator.HasVersion endlessVersion (List.replicate (digitLimit + 1) 0) := by
  refine ⟨List.replicate (digitLimit + 1) '0', ⟨[], [], ⟨?_, ?_, ?_⟩, fun b _ _ _ => ?_⟩, ?_⟩
  · rw [endlessVersion, String.toList_ofList]
    rfl
  · simp
  · intro c hc
    rw [List.eq_of_mem_replicate hc]
    decide
  · exact Nat.zero_le _
  · have hzero : digitValue? '0' = some 0 := by decide
    generalize digitLimit + 1 = n
    induction n with
    | zero => exact .nil
    | succ n ih => exact .cons hzero ih

def namelessTool : Calculator := { stairTool with runtime := .str "\x00" }

def namelessRequest : Request :=
  { stairRequest with
    resolver := { stairRequest.resolver with calculator := .fit namelessTool } }

/-- A runtime of version 12 is too old for the tool, so the cache is read. One that prints too many
zeros breaks off the request, and so does a name that the system does not take. -/
theorem old_and_endless_versions :
    stairRequest.job.result (hostPrinting "v12.22.0\n") =
      (stairCache.load.result (hostPrinting "v12.22.0\n")).bind stairRequest.resolved ∧
    stairRequest.job.result (hostPrinting endlessVersion) =
      .error (.badValue (IntegerProblem.tooLong (digitLimit + 1)).message) ∧
    namelessRequest.job.result { hostPrinting "v20.0.0\n" with systemStarts := true } =
      .error (.badValue "embedded null byte") := by
  refine ⟨?_, ?_, ?_⟩
  · have hprints : (Probe.ended 0 "v12.22.0\n" none).Prints [1, 2] := by
      refine .intro ⟨['1', '2'], Calculator.versionDigits?_eq_some_iff.mp (by decide), ?_⟩
      exact .cons (by decide) (.cons (by decide) .nil)
    have hfound := stairTool_found "v12.22.0\n"
    obtain ⟨-, -, -, hrequests⟩ := runtime_gate_decides (stairTool_faces "v12.22.0\n")
    refine (hrequests stairRequest stairCache rfl rfl).1 ?_ fun e hends => ?_
    · rw [Calculator.canRun_iff hfound hprints]
      decide
    · have hwritten : 10 ^ 2 ≤ 10 ^ digitLimit := Nat.pow_le_pow_right (by decide) (by decide)
      rcases hends.digits hprints with hlong | ⟨-, hwide⟩
      · exact absurd hlong (by decide)
      · exact absurd (hwritten.trans hwide) (by decide)
  · have hprints : (Probe.ended 0 endlessVersion none).Prints _ := .intro endlessVersion_hasVersion
    obtain ⟨-, -, -, hrequests⟩ := runtime_gate_decides (stairTool_faces endlessVersion)
    refine (hrequests stairRequest stairCache rfl rfl).2 _ ?_
    rw [← List.length_replicate (n := digitLimit + 1) (a := 0)]
    refine .endless (stairTool_found endlessVersion) hprints ?_
    rw [List.length_replicate]
    exact Nat.lt_succ_self digitLimit
  · have hfaces : namelessTool.Faces { hostPrinting "v20.0.0\n" with systemStarts := true } 14
        (.unstartable (.badValue "embedded null byte")) := ⟨⟨"\x00", rfl, .unstartable rfl⟩, rfl⟩
    obtain ⟨-, -, -, hrequests⟩ := runtime_gate_decides hfaces
    exact (hrequests namelessRequest stairCache rfl rfl).2 _ (.unstartable (stairTool_found _) rfl)

end ChunkBuild
