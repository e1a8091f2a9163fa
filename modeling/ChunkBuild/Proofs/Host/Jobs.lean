import ChunkBuild.Host.Basic
/-! # Jobs step by step

What a sequence of jobs does is said by what its jobs do. -/
namespace ChunkBuild

variable {α β : Type} {x : Job α} {f : α → Job β} {a : α} {b : β} {e : Failure} {h k : Host}

namespace Job

/-- How a job ends, whatever it leaves behind. -/
def result (x : Job α) (h : Host) : Except Failure α :=
  match x h with
  | .ok a _ => .ok a
  | .error e _ => .error e

@[simp] theorem pure_apply : (pure a : Job α) h = .ok a h := rfl

@[simp] theorem throw_apply : (throw e : Job α) h = .error e h := rfl

@[simp] theorem get_bind {f : Host → Job β} : (get >>= f) h = f h h := rfl

theorem bind_of_ok (hx : x h = .ok a k) : (x >>= f) h = f a k := by
  simp only [bind, EStateM.bind, hx]

theorem bind_of_error (hx : x h = .error e k) : (x >>= f) h = .error e k := by
  simp only [bind, EStateM.bind, hx]

theorem throw_bind : (throw e : Job α) >>= f = throw e := rfl

theorem bind_eq_ok : (x >>= f) h = .ok b k ↔ ∃ a m, x h = .ok a m ∧ f a m = .ok b k := by
  constructor
  · intro hb
    cases hx : x h with
    | ok a m => exact ⟨a, m, rfl, by rwa [bind_of_ok hx] at hb⟩
    | error e m =>
      rw [bind_of_error hx] at hb
      cases hb
  · rintro ⟨a, m, hx, hf⟩
    rw [bind_of_ok hx, hf]

theorem outcome_of_ok (hx : x h = .ok a k) : x.outcome h = .ok (.ok a) k := by
  rw [outcome, hx]

theorem outcome_of_error (hx : x h = .error e k) : x.outcome h = .ok (.error e) k := by
  rw [outcome, hx]

theorem outcome_eq_ok {r : Except Failure α} : x.outcome h = .ok r k ↔
    (∃ a, x h = .ok a k ∧ r = .ok a) ∨ ∃ e, x h = .error e k ∧ r = .error e := by
  unfold outcome
  cases hx : x h with
  | ok a m =>
    constructor
    · intro ho
      cases ho
      exact .inl ⟨a, rfl, rfl⟩
    · rintro (⟨b, hb, rfl⟩ | ⟨e, he, -⟩)
      · cases hb
        rfl
      · cases he
  | error e m =>
    constructor
    · intro ho
      cases ho
      exact .inr ⟨e, rfl, rfl⟩
    · rintro (⟨b, hb, -⟩ | ⟨e, he, rfl⟩)
      · cases hb
      · cases he
        rfl

theorem lift_bind_eq_ok {r : Except Failure α} : (Job.lift r >>= f) h = .ok b k ↔
    ∃ a, r = .ok a ∧ f a h = .ok b k := by
  cases r with
  | ok a =>
    constructor
    · exact fun hf => ⟨a, rfl, hf⟩
    · rintro ⟨_, ha, hf⟩
      cases ha
      exact hf
  | error e =>
    constructor
    · intro hf
      cases hf
    · rintro ⟨_, ha, -⟩
      cases ha

theorem lift_eq_ok {r : Except Failure α} : Job.lift r h = .ok a k ↔ r = .ok a ∧ k = h := by
  cases r with
  | ok b =>
    constructor
    · intro hb
      cases hb
      exact ⟨rfl, rfl⟩
    · rintro ⟨ha, rfl⟩
      cases ha
      rfl
  | error e => exact ⟨(fun he => nomatch he), fun he => nomatch he.1⟩

theorem lift_ok : Job.lift (.ok a) h = .ok a h := rfl

def leaves (x : Job α) (h : Host) (asked : Host → Bool) : Bool :=
  match x h with
  | .ok _ k => asked k
  | .error _ _ => false

theorem exists_of_leaves {asked : Host → Bool} (hx : x.leaves h asked = true) :
    ∃ a k, x h = .ok a k ∧ asked k = true := by
  unfold leaves at hx
  split at hx
  · next a k hr => exact ⟨a, k, hr, hx⟩
  · cases hx

theorem exists_of_result (hx : (x.result h).toOption = some a) : ∃ k, x h = .ok a k := by
  unfold result at hx
  split at hx
  · next b k hr =>
    cases hx
    exact ⟨k, hr⟩
  · cases hx

theorem of_result {P : α → Prop} [DecidablePred P] (hx : x h = .ok a k)
    (hp : (x.result h).toOption.any (fun a => decide (P a)) = true) : P a := by
  rw [result, hx] at hp
  exact of_decide_eq_true hp

theorem exists_of_result_of_leaves {asked : Host → Bool} (hr : (x.result h).toOption = some a)
    (hl : x.leaves h asked = true) : ∃ k, x h = .ok a k ∧ asked k = true := by
  obtain ⟨k, hk⟩ := exists_of_result hr
  obtain ⟨_, _, hsame, hasked⟩ := exists_of_leaves hl
  obtain ⟨-, rfl⟩ := EStateM.Result.ok.inj (hk.symm.trans hsame)
  exact ⟨k, hk, hasked⟩

end Job

end ChunkBuild
