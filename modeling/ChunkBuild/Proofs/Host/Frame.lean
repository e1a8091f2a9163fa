import ChunkBuild.Host.Programs
import ChunkBuild.Proofs.Host.Files
/-! # What jobs leave alone

A job keeps a view of the host that is the same before and after it, however the job ends. What
follows a job and keeps a view too adds nothing to what the job changed. Main statements: looking at
a path changes nothing, and a program that is started is the only one that is added to the runs. -/
namespace ChunkBuild

open ChunkBuild.Json ChunkBuild.Text

variable {α β γ : Type} {view : Host → γ} {x : Job α} {f : α → Job β} {a : α} {e : Failure}
  {h k : Host} {p : Path}

namespace Job

def left (x : Job α) (h : Host) : Host :=
  match x h with
  | .ok _ k => k
  | .error _ k => k

def Keeps (view : Host → γ) (x : Job α) : Prop := ∀ h, view (x.left h) = view h

theorem left_of_ok (hx : x h = .ok a k) : x.left h = k := by
  rw [left, hx]

theorem left_of_error (hx : x h = .error e k) : x.left h = k := by
  rw [left, hx]

theorem result_of_ok (hx : x h = .ok a k) : x.result h = .ok a := by
  rw [result, hx]

theorem result_of_error (hx : x h = .error e k) : x.result h = .error e := by
  rw [result, hx]

/-! ## Sequences -/

theorem left_get_bind {f : Host → Job β} : (get >>= f).left h = (f h).left h := rfl

theorem left_bind_of_ok (hx : x h = .ok a k) : (x >>= f).left h = (f a).left k := by
  rw [left, bind_of_ok hx]
  rfl

theorem left_outcome : x.outcome.left h = x.left h := by
  cases hx : x h with
  | ok a k => rw [left_of_ok (outcome_of_ok hx), left_of_ok hx]
  | error e k => rw [left_of_ok (outcome_of_error hx), left_of_error hx]

theorem view_left_bind (view : Host → γ) (hf : ∀ a, Keeps view (f a)) :
    view ((x >>= f).left h) = view (x.left h) := by
  cases hx : x h with
  | ok a k => rw [left_bind_of_ok hx, hf, left_of_ok hx]
  | error e k => rw [left_of_error (bind_of_error hx), left_of_error hx]

theorem Keeps.bind (hx : Keeps view x) (hf : ∀ a, Keeps view (f a)) : Keeps view (x >>= f) :=
  fun h => (view_left_bind view hf).trans (hx h)

theorem Keeps.pure (a : α) : Keeps view (pure a : Job α) := fun _ => rfl

theorem Keeps.throw (e : Failure) : Keeps view (throw e : Job α) := fun _ => rfl

theorem Keeps.get : Keeps view (get : Job Host) := fun _ => rfl

theorem Keeps.lift (r : Except Failure α) : Keeps view (Job.lift r) := by
  intro h
  cases r with
  | ok a => rfl
  | error e => rfl

theorem Keeps.outcome (hx : Keeps view x) : Keeps view x.outcome := by
  intro h
  rw [left_outcome]
  exact hx h

/-- What changes nothing keeps everything. -/
theorem Keeps.of_id (hx : Keeps id x) : Keeps view x := fun h => congrArg view (hx h)

theorem Keeps.eq_ok (hx : Keeps id x) (hr : x.result h = .ok a) : x h = .ok a h := by
  cases hb : x h with
  | ok b k =>
    have hk : k = h := (left_of_ok hb).symm.trans (hx h)
    rw [result_of_ok hb] at hr
    rw [hk, Except.ok.inj hr]
  | error e k =>
    rw [result_of_error hb] at hr
    cases hr

theorem Keeps.eq_error (hx : Keeps id x) (hr : x.result h = .error e) : x h = .error e h := by
  cases hb : x h with
  | ok a k =>
    rw [result_of_ok hb] at hr
    cases hr
  | error b k =>
    have hk : k = h := (left_of_error hb).symm.trans (hx h)
    rw [result_of_error hb] at hr
    rw [hk, Except.error.inj hr]

/-! ## Files -/

theorem result_entryAt? : (entryAt? p).result h =
    match pathProblem? p.text, h.locate p with
    | some _, _ => .ok none
    | none, .error .nameTooLong => .error (faultAt p .nameTooLong)
    | none, .error _ => .ok none
    | none, .ok loc => .ok (h.files.at? loc) := by
  rw [result, entryAt?, get_bind]
  cases pathProblem? p.text with
  | some e => rfl
  | none =>
    cases h.locate p with
    | ok loc => rfl
    | error e => cases e <;> rfl

theorem result_entryAt?_eq_iff {entry : Entry} :
    (entryAt? p).result h = .ok (some entry) ↔ h.Has p entry := by
  constructor
  · intro hr
    rw [result_entryAt?] at hr
    split at hr
    · cases hr
    · cases hr
    · cases hr
    · next loc hv hl => exact ⟨loc, ⟨hv, hl⟩, Except.ok.inj hr⟩
  · exact fun hp => result_of_ok (entryAt?_of_has hp)

/-- What stands at a path is a matter of the files and the current directory. -/
theorem result_entryAt?_of_same (hf : k.files = h.files) (hc : k.current = h.current) :
    (entryAt? p).result k = (entryAt? p).result h := by
  have hlocate : k.locate p = h.locate p := by
    rw [Host.locate, Host.locate, hf, hc]
  rw [result_entryAt?, result_entryAt?, hlocate, hf]

theorem keeps_entryAt? : Keeps id (entryAt? p) := by
  intro h
  unfold entryAt?
  rw [left_get_bind]
  split
  · rfl
  · rfl
  · rfl
  · rfl

theorem keeps_exists? : Keeps id (exists? p) :=
  keeps_entryAt?.bind fun _ => .pure _

theorem keeps_isDirectory : Keeps id (isDirectory p) :=
  keeps_entryAt?.bind fun _ => .pure _

theorem keeps_isFile : Keeps id (isFile p) :=
  keeps_entryAt?.bind fun _ => .pure _

theorem left_of_atPlace_error {g : FileTree → Location → Except FileProblem (α × FileTree)}
    (hr : atPlace p g h = .error e k) : k = h := by
  rw [atPlace_eq] at hr
  split at hr
  · exact (EStateM.Result.error.inj hr).2.symm
  · exact (EStateM.Result.error.inj hr).2.symm
  · split at hr
    · exact (EStateM.Result.error.inj hr).2.symm
    · cases hr

/-- An operation at a place changes nothing when it fails, and files only when it succeeds. -/
theorem left_atPlace (g : FileTree → Location → Except FileProblem (α × FileTree)) :
    (atPlace p g).left h = h ∨ ∃ loc a files, g h.files loc = .ok (a, files) ∧
      (atPlace p g).left h = { h with files := files } := by
  cases hx : atPlace p g h with
  | ok a k =>
    obtain ⟨loc, files, -, hg, rfl⟩ := atPlace_eq_ok.mp hx
    exact .inr ⟨loc, a, files, hg, left_of_ok hx⟩
  | error e k =>
    obtain rfl := left_of_atPlace_error hx
    exact .inl (left_of_error hx)

theorem keeps_runs_atPlace {g : FileTree → Location → Except FileProblem (α × FileTree)} :
    Keeps Host.runs (atPlace p g) := by
  intro h
  rcases left_atPlace (h := h) g with hl | ⟨loc, a, files, -, hl⟩
  · rw [hl]
  · rw [hl]

theorem keeps_readBytes : Keeps id (readBytes p) := by
  intro h
  rcases left_atPlace (h := h) fun t loc => (t.read loc).map (·, t) with
    hl | ⟨loc, a, files, hg, hl⟩
  · exact hl
  · obtain ⟨_, -, hr⟩ := except_map_eq_ok.mp hg
    cases hr
    exact hl

theorem keeps_checkPathText {s : String} : Keeps id (checkPathText s) := by
  unfold checkPathText
  split
  · exact .throw _
  · exact .pure ()

theorem keeps_resolved : Keeps id (resolved p) :=
  keeps_checkPathText.bind fun _ => .bind .get fun _ => .pure _

theorem keeps_decoded {bytes : Bytes} : Keeps id (decoded bytes) := by
  unfold decoded
  split
  · exact .pure _
  · exact .throw _

theorem keeps_readRaw : Keeps id (readRaw p) :=
  keeps_readBytes.bind fun _ => keeps_decoded

theorem keeps_readText : Keeps id (readText p) := keeps_readRaw.bind fun _ => .pure _

/-! ## Runs -/

theorem keeps_runs_ensureDirectory : Keeps Host.runs (ensureDirectory p) := by
  refine .bind keeps_runs_atPlace.outcome fun r => ?_
  split
  · exact .pure ()
  · refine .bind keeps_isDirectory.of_id fun stands => ?_
    split
    · exact .pure ()
    · exact .throw _
  · exact .throw _

theorem keeps_runs_ensureDirectoriesFrom {anchor : Anchor} {rest : List String} :
    Keeps Host.runs (ensureDirectoriesFrom anchor rest) := by
  induction rest with
  | nil => exact keeps_runs_ensureDirectory
  | cons name rest ih =>
    refine .bind keeps_runs_ensureDirectory.outcome fun r => ?_
    split
    · exact .pure ()
    · split
      · exact .bind ih fun _ => keeps_runs_ensureDirectory
      · exact .throw _
    · exact .throw _

theorem keeps_runs_writeAll {writes : List (String × Bytes)} :
    Keeps Host.runs (writeAll writes) := by
  induction writes with
  | nil => exact .pure ()
  | cons w r ih =>
    refine .bind .get fun h => .bind keeps_runs_ensureDirectoriesFrom fun _ => ?_
    exact .bind keeps_runs_atPlace fun _ => ih

theorem keeps_runs_named {command : String} : Keeps Host.runs (startValue.named command) := by
  intro h
  rw [startValue.named, left_get_bind]
  split
  · rfl
  · rfl
  · next writes exit stdout stderr tools _ =>
    have hwrites : Keeps Host.runs (do writeAll writes; pure (Ending.ended exit stdout stderr)) :=
      keeps_runs_writeAll.bind fun _ => .pure _
    exact hwrites { h with tools := tools }

/-- A program that is started is the only one that is added, whatever it does. -/
theorem runs_startValue {command : Value} {arguments : List String} {directory : Option String} :
    ((startValue command arguments directory).left h).runs =
      h.runs ++ [⟨command :: arguments.map .str, directory⟩] := by
  unfold startValue
  rw [view_left_bind Host.runs]
  · rfl
  · intro _
    split
    · refine .bind .get fun h => ?_
      split
      · exact .throw _
      · exact keeps_runs_named
    · exact .throw _
    · exact .throw _
    · exact .pure _

end Job

/-! ## Names of programs -/

def Host.recording (h : Host) (run : Run) : Host := { h with runs := h.runs ++ [run] }

namespace Job

variable {command : String} {arguments : List String} {directory : Option String} {e : Failure}

/-- The run is recorded before the system looks at its texts. -/
theorem startValue_of_problem
    (hp : h.startProblem? (command :: arguments ++ directory.toList) = some e) :
    startValue (.str command) arguments directory h =
      .error e (h.recording ⟨.str command :: arguments.map .str, directory⟩) := by
  have hsame : (h.recording ⟨.str command :: arguments.map .str, directory⟩).startProblem?
      (command :: arguments ++ directory.toList) = some e := hp
  rw [startValue]
  refine (bind_of_ok (k := h.recording _) rfl).trans ?_
  rw [get_bind, hsame]
  rfl

theorem startValue_of_no_problem
    (hp : h.startProblem? (command :: arguments ++ directory.toList) = none) :
    startValue (.str command) arguments directory h =
      startValue.named command (h.recording ⟨.str command :: arguments.map .str, directory⟩) := by
  have hsame : (h.recording ⟨.str command :: arguments.map .str, directory⟩).startProblem?
      (command :: arguments ++ directory.toList) = none := hp
  rw [startValue]
  refine (bind_of_ok (k := h.recording _) rfl).trans ?_
  rw [get_bind, hsame]

end Job

end ChunkBuild
