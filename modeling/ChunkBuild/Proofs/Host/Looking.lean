import ChunkBuild.Proofs.Host.Frame
import ChunkBuild.Proofs.Results
/-! # Jobs that only look

A job that changes nothing gives what the part of the host says that it looks at, and so does what is made
of such jobs. What is never looked at, the log and the runs above all, does not count for it. -/
namespace ChunkBuild

/-- A failure that is no error of the program. -/
def Failure.IsForeign (e : Failure) : Prop := ∀ b, e ≠ .error b

def Host.scene (h : Host) : FileTree × Path × Path × Fields String :=
  (h.files, h.current, h.home, h.environment)

variable {α β γ : Type} {view : Host → γ} {x : Job α} {f : α → Job β} {h k : Host} {p : Path}

namespace Job

/-! ## Results of sequences -/

theorem Keeps.result_bind (hx : Keeps id x) :
    (x >>= f).result h = (x.result h).bind fun a => (f a).result h := by
  cases hr : x.result h with
  | ok a => rw [result, bind_of_ok (hx.eq_ok hr)]; rfl
  | error e => rw [result, bind_of_error (hx.eq_error hr)]; rfl

/-- What comes last may depend on the host no more. -/
theorem result_bind {g : α → Except Failure β} (hf : ∀ a k, (f a).result k = g a) :
    (x >>= f).result h = (x.result h).bind g := by
  cases hx : x h with
  | ok a k =>
    rw [result_of_ok hx, result, bind_of_ok hx]
    exact hf a k
  | error e k => rw [result_of_error hx, result_of_error (bind_of_error hx)]; rfl

theorem result_lift (r : Except Failure α) (h : Host) : (lift r).result h = r := by
  cases r with
  | ok a => rfl
  | error e => rfl

theorem result_get_bind {f : Host → Job β} : (get >>= f).result h = (f h).result h := rfl

theorem result_outcome : x.outcome.result h = .ok (x.result h) := by
  cases hx : x h with
  | ok a k => rw [result_of_ok (outcome_of_ok hx), result_of_ok hx]
  | error e k => rw [result_of_ok (outcome_of_error hx), result_of_error hx]

/-! ## Looking -/

structure Looks (view : Host → γ) (x : Job α) : Prop where
  keeps : Keeps id x
  same : ∀ {h k}, view k = view h → x.result k = x.result h
  foreign : ∀ h, FailsOnly Failure.IsForeign (x.result h)

namespace Looks

theorem pure (a : α) : Looks view (pure a : Job α) := ⟨.pure a, fun _ => rfl, fun _ => .ok a⟩

theorem throw {e : Failure} (he : e.IsForeign) : Looks view (throw e : Job α) :=
  ⟨.throw e, fun _ => rfl, fun _ => .error he⟩

theorem lift {r : Except Failure α} (hr : FailsOnly Failure.IsForeign r) :
    Looks view (Job.lift r) where
  keeps := .lift r
  same _ := by rw [result_lift, result_lift]
  foreign h := by rwa [result_lift]

theorem bind (hx : Looks view x) (hf : ∀ a, Looks view (f a)) : Looks view (x >>= f) where
  keeps := hx.keeps.bind fun a => (hf a).keeps
  same hk := by
    rw [hx.keeps.result_bind, hx.keeps.result_bind, hx.same hk]
    exact congrArg _ (funext fun a => (hf a).same hk)
  foreign h := by
    rw [hx.keeps.result_bind]
    exact (hx.foreign h).bind fun a _ => (hf a).foreign h

theorem get_bind {f : Host → Job β} (hf : ∀ h, Looks view (f h))
    (hsame : ∀ {h k}, view k = view h → f k = f h) : Looks view (get >>= f) where
  keeps h := by
    rw [left_get_bind]
    exact (hf h).keeps h
  same {h k} hk := by
    rw [result_get_bind, result_get_bind, hsame hk]
    exact (hf h).same hk
  foreign h := (hf h).foreign h

theorem outcome (hx : Looks view x) : Looks view x.outcome where
  keeps := hx.keeps.outcome
  same hk := by rw [result_outcome, result_outcome, hx.same hk]
  foreign h := by
    rw [result_outcome]
    exact .ok _

theorem filterM {f : α → Job Bool} (hf : ∀ a, Looks view (f a)) (xs : List α) :
    Looks view (xs.filterM f) := by
  have haux (xs done : List α) : Looks view (xs.filterAuxM f done) := by
    induction xs generalizing done with
    | nil => exact .pure done
    | cons a r ih => exact (hf a).bind fun b => ih _
  exact (haux xs []).bind fun _ => .pure _

theorem filterMapM {f : α → Job (Option β)} (hf : ∀ a, Looks view (f a)) (xs : List α) :
    Looks view (xs.filterMapM f) := by
  induction xs with
  | nil => exact .pure []
  | cons a r ih =>
    rw [List.filterMapM_cons]
    refine (hf a).bind fun found => ?_
    cases found with
    | none => exact ih
    | some b => exact ih.bind fun _ => .pure _

theorem forIn {f : α → Job (ForInStep PUnit)} (hf : ∀ a, Looks view (f a)) (xs : List α) :
    Looks view (ForIn.forIn xs PUnit.unit fun a _ => f a) := by
  induction xs with
  | nil => exact .pure _
  | cons a r ih =>
    rw [List.forIn_cons]
    refine (hf a).bind fun step => ?_
    cases step with
    | done _ => exact .pure _
    | yield _ => exact ih

end Looks

/-! ## Files -/

theorem same_of_scene (hk : k.scene = h.scene) :
    k.files = h.files ∧ k.current = h.current ∧ k.home = h.home ∧
      k.environment = h.environment := by
  simpa only [Host.scene, Prod.mk.injEq] using hk

theorem locate_of_scene (hk : k.scene = h.scene) : k.locate p = h.locate p := by
  obtain ⟨hf, hc, -⟩ := same_of_scene hk
  rw [Host.locate, Host.locate, hf, hc]

theorem isForeign_pathProblem {s : String} {e : Failure} (he : pathProblem? s = some e) :
    e.IsForeign := by
  unfold pathProblem? at he
  split at he
  · cases he
    exact fun _ => Failure.noConfusion
  · cases he
    exact fun _ => Failure.noConfusion
  · cases he

theorem looks_entryAt? : Looks Host.scene (entryAt? p) where
  keeps := keeps_entryAt?
  same hk := result_entryAt?_of_same (same_of_scene hk).1 (same_of_scene hk).2.1
  foreign h := by
    rw [result_entryAt?]
    split
    · exact .ok none
    · exact .error fun _ => Failure.noConfusion
    · exact .ok none
    · exact .ok _

theorem looks_exists? : Looks Host.scene (exists? p) := looks_entryAt?.bind fun _ => .pure _

theorem looks_isDirectory : Looks Host.scene (isDirectory p) := looks_entryAt?.bind fun _ => .pure _

theorem looks_isFile : Looks Host.scene (isFile p) := looks_entryAt?.bind fun _ => .pure _

theorem looks_namesIn : Looks Host.scene (namesIn p) := by
  refine .get_bind (fun h => ?_) fun {h k} hk => ?_
  · split
    · exact .pure _
    · exact .pure _
  · rw [locate_of_scene hk, (same_of_scene hk).1]

theorem result_readBytes : (readBytes p).result h =
    match pathProblem? p.text, h.locate p with
    | some e, _ => .error e
    | none, .error e => .error (faultAt p e)
    | none, .ok loc => (h.files.read loc).mapError (faultAt p) := by
  rw [result, readBytes, atPlace_eq]
  cases pathProblem? p.text with
  | some e => rfl
  | none =>
    cases h.locate p with
    | error e => rfl
    | ok loc =>
      dsimp only
      cases h.files.read loc with
      | error e => rfl
      | ok bytes => rfl

theorem looks_readBytes : Looks Host.scene (readBytes p) where
  keeps := keeps_readBytes
  same hk := by
    rw [result_readBytes, result_readBytes, locate_of_scene hk, (same_of_scene hk).1]
  foreign h := by
    rw [result_readBytes]
    split
    · next e _ he => exact .error (isForeign_pathProblem he)
    · exact .error fun _ => Failure.noConfusion
    · next loc _ _ =>
      cases h.files.read loc with
      | error e => exact .error fun _ => Failure.noConfusion
      | ok bytes => exact .ok bytes

theorem looks_readText : Looks Host.scene (readText p) := by
  refine .bind (looks_readBytes.bind fun bytes => ?_) fun _ => .pure _
  unfold decoded
  split
  · exact .pure _
  · exact .throw fun _ => Failure.noConfusion

end Job

end ChunkBuild
