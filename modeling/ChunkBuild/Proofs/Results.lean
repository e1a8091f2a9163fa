import Mathlib.Data.List.Forall2
/-! # Results of computations that may fail

A computation over a list succeeds exactly when it does so on every item. -/
namespace ChunkBuild

variable {α β ε : Type}

theorem except_bind_eq_ok {x : Except ε α} {f : α → Except ε β} {b : β} :
    x >>= f = .ok b ↔ ∃ a, x = .ok a ∧ f a = .ok b := by
  cases x <;> simp [bind, Except.bind]

theorem except_bind_eq_error {x : Except ε α} {f : α → Except ε β} {e : ε} :
    x >>= f = .error e ↔ x = .error e ∨ ∃ a, x = .ok a ∧ f a = .error e := by
  cases x <;> simp [bind, Except.bind]

theorem except_map_eq_ok {x : Except ε α} {f : α → β} {b : β} :
    x.map f = .ok b ↔ ∃ a, x = .ok a ∧ f a = b := by
  cases x <;> simp [Except.map]

theorem except_map_eq_error {x : Except ε α} {f : α → β} {e : ε} :
    x.map f = .error e ↔ x = .error e := by
  cases x <;> simp [Except.map]

theorem except_mapError_eq_ok {x : Except ε α} {f : ε → β} {a : α} :
    x.mapError f = .ok a ↔ x = .ok a := by
  cases x <;> simp [Except.mapError]

theorem except_mapError_eq_error {x : Except ε α} {f : ε → β} {b : β} :
    x.mapError f = .error b ↔ ∃ e, x = .error e ∧ f e = b := by
  cases x <;> simp [Except.mapError]

theorem exists_of_isSome {x : Except ε α} (h : x.toOption.isSome = true) : ∃ a, x = .ok a := by
  cases x with
  | ok a => exact ⟨a, rfl⟩
  | error e => cases h

theorem exists_forall₂_iff {r : α → β → Prop} {xs : List α} :
    (∃ ys, List.Forall₂ r xs ys) ↔ ∀ x ∈ xs, ∃ y, r x y := by
  induction xs with
  | nil => simp
  | cons x l ih =>
    constructor
    · rintro ⟨ys, h⟩
      cases h with
      | cons hy hr => exact List.forall_mem_cons.mpr ⟨⟨_, hy⟩, ih.mp ⟨_, hr⟩⟩
    · intro h
      obtain ⟨⟨y, hy⟩, hr⟩ := List.forall_mem_cons.mp h
      obtain ⟨ys, hys⟩ := ih.mpr hr
      exact ⟨y :: ys, .cons hy hys⟩

theorem exists_left_of_forall₂ {r : α → β → Prop} {xs : List α} {ys : List β}
    (h : List.Forall₂ r xs ys) {y : β} (hy : y ∈ ys) : ∃ x ∈ xs, r x y := by
  induction h with
  | nil => cases hy
  | @cons x _ _ _ hx _ ih =>
    rcases List.mem_cons.mp hy with rfl | hy
    · exact ⟨x, List.mem_cons_self, hx⟩
    · obtain ⟨w, hw, h⟩ := ih hy
      exact ⟨w, List.mem_cons_of_mem _ hw, h⟩

theorem forall_mem_iff_of_forall₂ {r : α → β → Prop} {xs : List α} {ys : List β} {P : α → Prop}
    {Q : β → Prop} (h : List.Forall₂ r xs ys)
    (hpq : ∀ {a b}, r a b → (P a ↔ Q b)) : (∀ a ∈ xs, P a) ↔ ∀ b ∈ ys, Q b := by
  induction h with
  | nil => exact iff_of_true (fun _ h => nomatch h) fun _ h => nomatch h
  | cons hone _ ih => rw [List.forall_mem_cons, List.forall_mem_cons, hpq hone, ih]

theorem pairwise_iff_of_forall₂ {r : α → β → Prop} {xs : List α} {ys : List β} {s : α → α → Prop}
    {t : β → β → Prop} (h : List.Forall₂ r xs ys)
    (hst : ∀ {a b c d}, r a b → r c d → (s a c ↔ t b d)) : xs.Pairwise s ↔ ys.Pairwise t := by
  induction h with
  | nil => exact iff_of_true .nil .nil
  | cons hone hmany ih =>
    rw [List.pairwise_cons, List.pairwise_cons, ih,
      forall_mem_iff_of_forall₂ hmany fun hother => hst hone hother]

theorem mapM_eq_ok_iff {f : α → Except ε β} {xs : List α} {ys : List β} :
    xs.mapM f = .ok ys ↔ List.Forall₂ (fun x y => f x = .ok y) xs ys := by
  induction xs generalizing ys with
  | nil => cases ys <;> simp [pure, Except.pure]
  | cons x r ih =>
    rw [List.mapM_cons, except_bind_eq_ok]
    constructor
    · rintro ⟨y, hy, h⟩
      obtain ⟨zs, hz, h⟩ := except_bind_eq_ok.mp h
      cases h
      exact .cons hy (ih.mp hz)
    · intro h
      cases h with
      | cons hy hr => exact ⟨_, hy, except_bind_eq_ok.mpr ⟨_, ih.mpr hr, rfl⟩⟩

/-- The first item that fails decides the failure. -/
theorem mapM_eq_error_iff {f : α → Except ε β} {xs : List α} {e : ε} :
    xs.mapM f = .error e ↔ ∃ before x after, xs = before ++ x :: after ∧
      (∀ y ∈ before, ∃ b, f y = .ok b) ∧ f x = .error e := by
  induction xs with
  | nil => exact iff_of_false (fun h => nomatch h) (by simp)
  | cons x r ih =>
    rw [List.mapM_cons]
    cases hx : f x with
    | error e' =>
      constructor
      · intro h
        cases h
        exact ⟨[], x, r, rfl, List.forall_mem_nil _, hx⟩
      · rintro ⟨before, y, after, heq, hbefore, hy⟩
        cases before with
        | nil =>
          obtain ⟨rfl, -⟩ := List.cons.inj heq
          cases hx.symm.trans hy
          rfl
        | cons z before =>
          obtain ⟨rfl, -⟩ := List.cons.inj heq
          obtain ⟨b, hb⟩ := hbefore x List.mem_cons_self
          cases hx.symm.trans hb
    | ok y =>
      have hrest : (do
          let ys ← r.mapM f
          pure (y :: ys)) = .error e ↔ r.mapM f = .error e := by
        cases r.mapM f with
        | ok ys => exact iff_of_false (fun h => nomatch h) fun h => nomatch h
        | error e' => exact ⟨fun h => by cases h; rfl, fun h => by cases h; rfl⟩
      refine hrest.trans (ih.trans ⟨?_, ?_⟩)
      · rintro ⟨before, z, after, rfl, hbefore, hz⟩
        exact ⟨x :: before, z, after, rfl, List.forall_mem_cons.mpr ⟨⟨y, hx⟩, hbefore⟩, hz⟩
      · rintro ⟨before, z, after, heq, hbefore, hz⟩
        cases before with
        | nil =>
          obtain ⟨rfl, -⟩ := List.cons.inj heq
          cases hx.symm.trans hz
        | cons w before =>
          exact ⟨before, z, after, (List.cons.inj heq).2, (List.forall_mem_cons.mp hbefore).2, hz⟩

theorem exists_of_mapM_eq_error {f : α → Except ε β} {xs : List α} {e : ε}
    (h : xs.mapM f = .error e) : ∃ x ∈ xs, f x = .error e := by
  obtain ⟨before, x, after, rfl, -, hx⟩ := mapM_eq_error_iff.mp h
  exact ⟨x, List.mem_append_right before List.mem_cons_self, hx⟩

theorem filterMapM_eq_ok {f : α → Except ε (Option β)} {xs : List α} {ys : List β}
    (h : xs.filterMapM f = .ok ys) :
    ∃ zs, zs.Sublist xs ∧ List.Forall₂ (fun x y => f x = .ok (some y)) zs ys := by
  induction xs generalizing ys with
  | nil =>
    cases h
    exact ⟨[], .slnil, .nil⟩
  | cons x r ih =>
    rw [List.filterMapM_cons] at h
    obtain ⟨found, hx, h⟩ := except_bind_eq_ok.mp h
    cases found with
    | none =>
      obtain ⟨zs, hzs, hall⟩ := ih h
      exact ⟨zs, hzs.cons x, hall⟩
    | some y =>
      obtain ⟨ys, hys, h⟩ := except_bind_eq_ok.mp h
      cases h
      obtain ⟨zs, hzs, hall⟩ := ih hys
      exact ⟨x :: zs, hzs.cons_cons x, .cons hx hall⟩

theorem mem_of_mapM_eq_some {f : α → Option β} {xs : List α} {ys : List β} {y : β}
    (h : xs.mapM f = some ys) (hy : y ∈ ys) : ∃ x ∈ xs, f x = some y := by
  induction xs generalizing ys with
  | nil =>
    cases h
    cases hy
  | cons x xs ih =>
    rw [List.mapM_cons] at h
    obtain ⟨z, hz, h⟩ := Option.bind_eq_some_iff.mp h
    obtain ⟨zs, hzs, h⟩ := Option.bind_eq_some_iff.mp h
    cases h
    rcases List.mem_cons.mp hy with rfl | hy
    · exact ⟨x, List.mem_cons_self, hz⟩
    · obtain ⟨x', hx, hf⟩ := ih hzs hy
      exact ⟨x', List.mem_cons_of_mem _ hx, hf⟩

/-! ## Kinds of failures -/

def FailsOnly (P : ε → Prop) (x : Except ε α) : Prop := ∀ e, x = .error e → P e

namespace FailsOnly

variable {P : ε → Prop} {x : Except ε α}

theorem ok (a : α) : FailsOnly P (.ok a) := fun _ h => nomatch h

theorem error {e : ε} (h : P e) : FailsOnly P (.error e : Except ε α) := by
  rintro _ ⟨⟩
  exact h

theorem bind {f : α → Except ε β} (hx : FailsOnly P x)
    (hf : ∀ a, x = .ok a → FailsOnly P (f a)) : FailsOnly P (x >>= f) := by
  cases x with
  | ok a => exact hf a rfl
  | error e => exact .error (hx e rfl)

theorem map {f : α → β} (hx : FailsOnly P x) : FailsOnly P (x.map f) :=
  fun e h => hx e (except_map_eq_error.mp h)

theorem mapM {f : α → Except ε β} (hf : ∀ a, FailsOnly P (f a)) (xs : List α) :
    FailsOnly P (xs.mapM f) := by
  intro e h
  obtain ⟨a, -, ha⟩ := exists_of_mapM_eq_error h
  exact hf a e ha

theorem foldlM {f : β → α → Except ε β} (hf : ∀ b a, FailsOnly P (f b a)) (b : β) (xs : List α) :
    FailsOnly P (xs.foldlM f b) := by
  induction xs generalizing b with
  | nil => exact .ok b
  | cons a r ih =>
    rw [List.foldlM_cons]
    exact (hf b a).bind fun c _ => ih c

theorem filterMapM {f : α → Except ε (Option β)} (hf : ∀ a, FailsOnly P (f a)) (xs : List α) :
    FailsOnly P (xs.filterMapM f) := by
  induction xs with
  | nil => exact .ok []
  | cons a r ih =>
    rw [List.filterMapM_cons]
    refine (hf a).bind fun found _ => ?_
    cases found with
    | none => exact ih
    | some b => exact ih.bind fun ys _ => .ok (b :: ys)

end FailsOnly

end ChunkBuild
