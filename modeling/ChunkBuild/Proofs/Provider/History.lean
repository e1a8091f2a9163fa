import Mathlib.Data.List.Induction
import ChunkBuild.Proofs.Fields
import ChunkBuild.Proofs.Results
import ChunkBuild.Provider.Container
/-! # Calls to a container of providers

A container is configured, told what names stand for, and asked for providers, in any order. What it
answers depends on the latest settings, directory and registration, and a shared provider lasts until
one of them may have changed. The invariant behind it is that no visible provider is stale. -/
namespace ChunkBuild

open ChunkBuild.Json

variable {κ ι α : Type}

inductive Call (κ : Type := ProviderKind) where
  | configure (settings : Value) (directory : Option Path)
  | register (name : String) (kind : κ) (isShared : Bool)
  | get (name : String)

namespace Call

def settings? : Call κ → Option Value
  | .configure settings _ => some settings
  | _ => none

def directory? : Call κ → Option Path
  | .configure _ directory => directory
  | _ => none

def registration? (name : String) : Call κ → Option (Registration κ)
  | .register other kind isShared => if other = name then some ⟨kind, isShared⟩ else none
  | _ => none

/-- Whether a call ends the life of the shared provider of a name. -/
def Renews (name : String) : Call κ → Prop
  | .configure _ _ => True
  | .register other _ _ => other = name
  | .get _ => False

def latest? (brings : Call κ → Option α) (calls : List (Call κ)) : Option α :=
  (calls.filterMap brings).getLast?

theorem latest?_concat (brings : Call κ → Option α) (calls : List (Call κ)) (c : Call κ) :
    latest? brings (calls ++ [c]) = (brings c).or (latest? brings calls) := by
  rw [latest?, List.filterMap_append, List.getLast?_append, latest?]
  cases hc : brings c with
  | none => rw [List.filterMap_cons_none hc]; rfl
  | some a => rw [List.filterMap_cons_some hc]; rfl

end Call

namespace Providers

variable {ps qs : Providers κ ι} {name other : String} {i j : Instance ι} {r : Registration κ}
  {c : Call κ} {calls later : List (Call κ)} {e : Failure}

/-- The shared provider that is made already, if the name stands for a shared one. -/
def visible? (ps : Providers κ ι) (name : String) : Option (Instance ι) :=
  match ps.registered.get? name with
  | some r => if r.isShared then ps.shared.get? name else none
  | none => none

theorem visible_eq_some : ps.visible? name = some i ↔
    ∃ r, ps.registered.get? name = some r ∧ r.isShared = true ∧ ps.shared.get? name = some i := by
  unfold visible?
  cases ps.registered.get? name with
  | none => simp
  | some r => simp

theorem visible_eq_none_of_not_shared (hr : ps.registered.get? name = some r)
    (hs : r.isShared = false) : ps.visible? name = none := by
  unfold visible?
  rw [hr]
  simp [hs]

variable [Makes κ ι]

/-- The container after a call. One that fails changes nothing. -/
def call (ps : Providers κ ι) : Call κ → Providers κ ι
  | .configure settings directory => ps.configure settings directory
  | .register name kind isShared => ps.register name kind isShared
  | .get name =>
    match ps.get name with
    | .ok (_, ps) => ps
    | .error _ => ps

def after (ps : Providers κ ι) (calls : List (Call κ)) : Providers κ ι := calls.foldl call ps

def anew (ps : Providers κ ι) (name : String) : Option (Registration κ) → Except Failure ι
  | none => .error (.badValue ("No provider registered for " ++ name))
  | some r => ps.make name r.kind

def registrationAfter (ps : Providers κ ι) (calls : List (Call κ)) (name : String) :
    Option (Registration κ) :=
  (Call.latest? (Call.registration? name) calls).or (ps.registered.get? name)

/-- A container that calls left its settings and directory to, and that was asked for nothing. -/
def renewed (ps : Providers κ ι) (calls : List (Call κ)) : Providers κ ι :=
  { directory := (Call.latest? Call.directory? calls).getD ps.directory
    settings := (Call.latest? Call.settings? calls).getD ps.settings
    registered := ps.registered }

def keeping (ps : Providers κ ι) (name : String) (r : Registration κ) (p : ι) : Providers κ ι :=
  { ps with
    made := ps.made + 1
    shared := if r.isShared then ps.shared.put name ⟨ps.made, p⟩ else ps.shared }

/-! ## One call -/

theorem get_of_visible (h : ps.visible? name = some i) : ps.get name = .ok (i, ps) := by
  unfold visible? at h
  unfold get
  split at h
  · next r hr => simp only [hr, h]
  · cases h

theorem get_of_unseen (h : ps.visible? name = none) (hr : ps.registered.get? name = some r) :
    ps.get name = (ps.make name r.kind).map fun p => (⟨ps.made, p⟩, ps.keeping name r p) := by
  unfold visible? at h
  unfold get
  rw [hr] at h ⊢
  simp only [h]
  rfl

theorem get_of_unregistered (hr : ps.registered.get? name = none) :
    ps.get name = .error (.badValue ("No provider registered for " ++ name)) := by
  unfold get
  rw [hr]

/-- An answer is the visible provider or a new one. -/
theorem get_eq_ok (h : ps.get name = .ok (i, qs)) :
    ∃ r, ps.registered.get? name = some r ∧
      (ps.visible? name = some i ∧ qs = ps ∨
        ps.visible? name = none ∧ i.serial = ps.made ∧ ps.make name r.kind = .ok i.provider ∧
          qs = ps.keeping name r i.provider) := by
  cases hr : ps.registered.get? name with
  | none =>
    rw [get_of_unregistered hr] at h
    cases h
  | some r =>
    refine ⟨r, rfl, ?_⟩
    cases hv : ps.visible? name with
    | some j =>
      rw [get_of_visible hv] at h
      cases h
      exact .inl ⟨rfl, rfl⟩
    | none =>
      rw [get_of_unseen hv hr, except_map_eq_ok] at h
      obtain ⟨p, hp, h⟩ := h
      cases h
      exact .inr ⟨rfl, rfl, hp, rfl⟩

theorem call_get_of_ok (h : ps.get name = .ok (i, qs)) : ps.call (.get name) = qs := by
  rw [call, h]

theorem call_get_of_error (h : ps.get name = .error e) : ps.call (.get name) = ps := by
  rw [call, h]

theorem call_get_cases (ps : Providers κ ι) (name : String) :
    ps.call (.get name) = ps ∨
      ∃ r p, ps.registered.get? name = some r ∧ ps.visible? name = none ∧
        ps.make name r.kind = .ok p ∧ ps.call (.get name) = ps.keeping name r p := by
  cases hg : ps.get name with
  | error e => exact .inl (call_get_of_error hg)
  | ok answer =>
    obtain ⟨i, qs⟩ := answer
    obtain ⟨r, hr, ⟨-, rfl⟩ | ⟨hv, -, hmake, rfl⟩⟩ := get_eq_ok hg
    · exact .inl (call_get_of_ok hg)
    · exact .inr ⟨r, i.provider, hr, hv, hmake, call_get_of_ok hg⟩

theorem settings_call : (ps.call c).settings = c.settings?.getD ps.settings := by
  cases c with
  | configure settings directory => rfl
  | register name kind isShared => rfl
  | get name =>
    obtain h | ⟨r, p, -, -, -, h⟩ := call_get_cases ps name
    · rw [h]; rfl
    · rw [h]; rfl

theorem directory_call : (ps.call c).directory = c.directory?.getD ps.directory := by
  cases c with
  | configure settings directory => rfl
  | register name kind isShared => rfl
  | get name =>
    obtain h | ⟨r, p, -, -, -, h⟩ := call_get_cases ps name
    · rw [h]; rfl
    · rw [h]; rfl

theorem registered_call :
    (ps.call c).registered.get? name = (c.registration? name).or (ps.registered.get? name) := by
  cases c with
  | configure settings directory => rfl
  | register other kind isShared =>
    rw [call, register, Call.registration?]
    by_cases hn : other = name
    · subst hn
      rw [Fields.get?_put_self, if_pos rfl]
      rfl
    · rw [Fields.get?_put_of_ne hn, if_neg hn]
      rfl
  | get other =>
    obtain h | ⟨r, p, -, -, -, h⟩ := call_get_cases ps other
    · rw [h]; rfl
    · rw [h]; rfl

theorem made_le_call : ps.made ≤ (ps.call c).made := by
  cases c with
  | configure settings directory => exact Nat.le_refl _
  | register name kind isShared => exact Nat.le_refl _
  | get name =>
    obtain h | ⟨r, p, -, -, -, h⟩ := call_get_cases ps name
    · exact Nat.le_of_eq (by rw [h])
    · rw [h]
      exact Nat.le_succ _

/-! ## Visible providers -/

theorem visible_of_get (h : ps.get name = .ok (i, qs)) (hr : ps.registered.get? name = some r)
    (hs : r.isShared = true) : qs.visible? name = some i := by
  obtain ⟨_, hsame, ⟨hv, rfl⟩ | ⟨-, hserial, -, rfl⟩⟩ := get_eq_ok h
  · exact hv
  · obtain rfl := Option.some.inj (hr.symm.trans hsame)
    refine visible_eq_some.mpr ⟨r, hr, hs, ?_⟩
    rw [keeping, if_pos hs, Fields.get?_put_self, ← hserial]

/-- A visible provider stays as long as nothing renews it. -/
theorem visible_call_of_not_renews (hc : ¬ c.Renews name) (h : ps.visible? name = some i) :
    (ps.call c).visible? name = some i := by
  obtain ⟨r, hr, hs, hi⟩ := visible_eq_some.mp h
  cases c with
  | configure settings directory => exact absurd trivial hc
  | register other kind isShared =>
    refine visible_eq_some.mpr ⟨r, ?_, hs, ?_⟩
    · exact (Fields.get?_put_of_ne hc).trans hr
    · rw [call, register]
      dsimp only
      split
      · exact (Fields.get?_erase_of_ne hc).trans hi
      · exact hi
  | get other =>
    obtain hsame | ⟨r', p, -, hv, -, hmade⟩ := call_get_cases ps other
    · rwa [hsame]
    · rw [hmade]
      have hne : other ≠ name := by
        rintro rfl
        rw [hv] at h
        cases h
      refine visible_eq_some.mpr ⟨r, hr, hs, ?_⟩
      rw [keeping]
      dsimp only
      split
      · exact (Fields.get?_put_of_ne hne).trans hi
      · exact hi

/-- What is visible after a call was visible before or is the answer to that call. -/
theorem visible_call (h : (ps.call c).visible? name = some i) :
    ¬ c.Renews name ∧ (ps.visible? name = some i ∨
      c = .get name ∧ ps.visible? name = none ∧ ps.get name = .ok (i, ps.call c)) := by
  obtain ⟨r, hr, hs, hi⟩ := visible_eq_some.mp h
  cases c with
  | configure settings directory => cases hi
  | register other kind isShared =>
    rw [registered_call, Call.registration?] at hr
    rw [call, register] at hi
    dsimp only at hi
    by_cases hn : other = name
    · subst hn
      rw [if_pos rfl] at hr
      obtain rfl : ⟨kind, isShared⟩ = r := Option.some.inj hr
      rw [if_pos hs, Fields.get?_erase_self] at hi
      cases hi
    · refine ⟨hn, .inl (visible_eq_some.mpr ⟨r, ?_, hs, ?_⟩)⟩
      · rwa [if_neg hn] at hr
      · split at hi
        · rwa [Fields.get?_erase_of_ne hn] at hi
        · exact hi
  | get other =>
    refine ⟨id, ?_⟩
    obtain hsame | ⟨r', p, hr', hv, hmake, hmade⟩ := call_get_cases ps other
    · rw [hsame] at h
      exact .inl h
    · rw [hmade] at hr hi
      by_cases hn : other = name
      · subst hn
        obtain rfl := Option.some.inj (hr'.symm.trans hr)
        rw [keeping, if_pos hs, Fields.get?_put_self] at hi
        cases hi
        refine .inr ⟨rfl, hv, ?_⟩
        rw [get_of_unseen hv hr', hmake, hmade]
        rfl
      · refine .inl (visible_eq_some.mpr ⟨r, hr, hs, ?_⟩)
        rw [keeping] at hi
        dsimp only at hi
        split at hi
        · rwa [Fields.get?_put_of_ne hn] at hi
        · exact hi

/-- No visible provider is stale, and all that were made have numbers of their own. -/
structure IsCurrent (ps : Providers κ ι) : Prop where
  made_now : ∀ {name i r}, ps.visible? name = some i → ps.registered.get? name = some r →
    ps.make name r.kind = .ok i.provider
  made_before : ∀ {name i}, ps.visible? name = some i → i.serial < ps.made

theorem isCurrent_of_shared_nil (h : ps.shared = []) : ps.IsCurrent := by
  have hnone (name : String) (i : Instance ι) : ps.visible? name ≠ some i := by
    intro hv
    obtain ⟨_, -, -, hi⟩ := visible_eq_some.mp hv
    rw [h] at hi
    cases hi
  exact ⟨fun hv => absurd hv (hnone _ _), fun hv => absurd hv (hnone _ _)⟩

theorem make_call (hc : ¬ c.Renews name) : (ps.call c).make name = ps.make name := by
  cases c with
  | configure settings directory => exact absurd trivial hc
  | register other kind isShared => rfl
  | get other =>
    obtain h | ⟨r, p, -, -, -, h⟩ := call_get_cases ps other
    · rw [h]
    · rw [h]
      rfl

theorem registered_call_of_not_renews (hc : ¬ c.Renews name) :
    (ps.call c).registered.get? name = ps.registered.get? name := by
  rw [registered_call]
  cases c with
  | configure settings directory => rfl
  | register other kind isShared =>
    rw [Call.registration?, if_neg (show other ≠ name from hc)]
    rfl
  | get other => rfl

theorem IsCurrent.provider_get (h : ps.IsCurrent) (name : String) :
    (ps.get name).map (·.1.provider) = ps.anew name (ps.registered.get? name) := by
  cases hr : ps.registered.get? name with
  | none =>
    rw [get_of_unregistered hr]
    rfl
  | some r =>
    cases hv : ps.visible? name with
    | some i =>
      rw [get_of_visible hv, anew, h.made_now hv hr]
      rfl
    | none =>
      rw [get_of_unseen hv hr, anew]
      cases ps.make name r.kind with
      | error e => rfl
      | ok p => rfl

theorem IsCurrent.serial_lt (h : ps.IsCurrent) (hg : ps.get name = .ok (i, qs)) :
    i.serial < qs.made := by
  obtain ⟨r, -, ⟨hv, rfl⟩ | ⟨-, hserial, -, rfl⟩⟩ := get_eq_ok hg
  · exact h.made_before hv
  · rw [hserial]
    exact Nat.lt_succ_self _

theorem IsCurrent.call (h : ps.IsCurrent) (c : Call κ) : (ps.call c).IsCurrent := by
  constructor
  · intro name i r hv hr
    obtain ⟨hc, hbefore | ⟨-, -, hg⟩⟩ := visible_call hv
    · rw [make_call hc]
      rw [registered_call_of_not_renews hc] at hr
      exact h.made_now hbefore hr
    · rw [make_call hc]
      rw [registered_call_of_not_renews hc] at hr
      have hanew := h.provider_get name
      rw [hg, hr] at hanew
      exact hanew.symm
  · intro name i hv
    obtain ⟨-, hbefore | ⟨-, -, hg⟩⟩ := visible_call hv
    · exact Nat.lt_of_lt_of_le (h.made_before hbefore) made_le_call
    · exact h.serial_lt hg

/-! ## Many calls -/

theorem after_concat : ps.after (calls ++ [c]) = (ps.after calls).call c := by
  rw [after, List.foldl_append]
  rfl

theorem after_append : ps.after (calls ++ later) = (ps.after calls).after later :=
  List.foldl_append

theorem IsCurrent.after (h : ps.IsCurrent) (calls : List (Call κ)) : (ps.after calls).IsCurrent := by
  induction calls generalizing ps with
  | nil => exact h
  | cons c calls ih => exact ih (h.call c)

theorem settings_after :
    (ps.after calls).settings = (Call.latest? Call.settings? calls).getD ps.settings := by
  induction calls using List.reverseRecOn with
  | nil => rfl
  | append_singleton calls c ih =>
    rw [after_concat, settings_call, ih, Call.latest?_concat]
    cases c.settings? <;> rfl

theorem directory_after :
    (ps.after calls).directory = (Call.latest? Call.directory? calls).getD ps.directory := by
  induction calls using List.reverseRecOn with
  | nil => rfl
  | append_singleton calls c ih =>
    rw [after_concat, directory_call, ih, Call.latest?_concat]
    cases c.directory? <;> rfl

theorem registered_after :
    (ps.after calls).registered.get? name = ps.registrationAfter calls name := by
  induction calls using List.reverseRecOn with
  | nil => rfl
  | append_singleton calls c ih =>
    rw [after_concat, registered_call, ih, registrationAfter, registrationAfter,
      Call.latest?_concat, Option.or_assoc]

theorem make_after : (ps.after calls).make = (ps.renewed calls).make := by
  have hmake (rs : Providers κ ι) : rs.make =
      make { directory := rs.directory, settings := rs.settings, registered := [] } := rfl
  rw [hmake, settings_after, directory_after, hmake (ps.renewed calls)]
  rfl

theorem anew_after : (ps.after calls).anew name = (ps.renewed calls).anew name := by
  funext r
  cases r with
  | none => rfl
  | some r => rw [anew, anew, make_after]

theorem made_le_after : ps.made ≤ (ps.after calls).made := by
  induction calls generalizing ps with
  | nil => exact Nat.le_refl _
  | cons c calls ih => exact Nat.le_trans made_le_call ih

theorem visible_after_of_not_renews (hl : ∀ c ∈ later, ¬ c.Renews name)
    (h : ps.visible? name = some i) : (ps.after later).visible? name = some i := by
  induction later generalizing ps with
  | nil => exact h
  | cons c later ih =>
    obtain ⟨hc, hl⟩ := List.forall_mem_cons.mp hl
    exact ih hl (visible_call_of_not_renews hc h)

def Answers (ps : Providers κ ι) (calls : List (Call κ)) (i : Instance ι) : Prop :=
  ∃ before name since qs, calls = before ++ .get name :: since ∧
    (ps.after before).get name = .ok (i, qs)

theorem IsCurrent.answers_lt (h : ps.IsCurrent) (hi : ps.Answers calls i) :
    i.serial < (ps.after calls).made := by
  obtain ⟨before, name, since, qs, rfl, hg⟩ := hi
  have hlast : ps.after (before ++ .get name :: since) = qs.after since := by
    rw [after_append, Providers.after, List.foldl_cons, call_get_of_ok hg]
    rfl
  rw [hlast]
  exact Nat.lt_of_lt_of_le ((h.after before).serial_lt hg) made_le_after

/-- A name was asked for, and nothing that renews its provider came since. -/
def AskedSince (calls : List (Call κ)) (name : String) : Prop :=
  ∃ before since, calls = before ++ .get name :: since ∧ ∀ c ∈ since, ¬ c.Renews name

theorem askedSince_of_visible (hp : ps.shared = [])
    (h : (ps.after calls).visible? name = some i) : AskedSince calls name := by
  induction calls using List.reverseRecOn with
  | nil =>
    obtain ⟨_, -, -, hi⟩ := visible_eq_some.mp h
    rw [after, List.foldl_nil, hp] at hi
    cases hi
  | append_singleton calls c ih =>
    rw [after_concat] at h
    obtain ⟨hc, hbefore | ⟨rfl, -, -⟩⟩ := visible_call h
    · obtain ⟨before, since, rfl, hsince⟩ := ih hbefore
      refine ⟨before, since ++ [c], by rw [List.append_assoc]; rfl, ?_⟩
      exact List.forall_mem_append.mpr ⟨hsince, List.forall_mem_singleton.mpr hc⟩
    · exact ⟨calls, [], rfl, fun _ h => nomatch h⟩

theorem not_askedSince_concat (hc : c.Renews name) : ¬ AskedSince (calls ++ [c]) name := by
  rintro ⟨before, since, h, hsince⟩
  rcases List.eq_nil_or_concat' since with rfl | ⟨since, last, rfl⟩
  · obtain ⟨-, hlast⟩ := List.append_inj' h rfl
    cases hlast
    exact hc
  · rw [← List.cons_append, ← List.append_assoc] at h
    obtain ⟨-, hlast⟩ := List.append_inj' h rfl
    cases hlast
    exact hsince c List.mem_concat_self hc

/-- A provider is a new one where none is shared or none lasted. -/
theorem serial_new (hp : ps.shared = []) (hg : (ps.after calls).get name = .ok (i, qs))
    (hr : (ps.after calls).registered.get? name = some r)
    (hnew : r.isShared = false ∨ ¬ AskedSince calls name) (hj : ps.Answers calls j) :
    j.serial ≠ i.serial := by
  have hnone : (ps.after calls).visible? name = none := by
    rcases hnew with hs | hnever
    · exact visible_eq_none_of_not_shared hr hs
    · cases hv : (ps.after calls).visible? name with
      | none => rfl
      | some i => exact absurd (askedSince_of_visible hp hv) hnever
  obtain ⟨_, -, ⟨hv, -⟩ | ⟨-, hserial, -⟩⟩ := get_eq_ok hg
  · rw [hnone] at hv
    cases hv
  · rw [hserial]
    exact Nat.ne_of_lt ((isCurrent_of_shared_nil hp).answers_lt hj)

theorem get_again (hg : ps.get name = .ok (i, qs)) (hr : ps.registered.get? name = some r)
    (hs : r.isShared = true) (hl : ∀ c ∈ later, ¬ c.Renews name) :
    (ps.after (.get name :: later)).get name = .ok (i, ps.after (.get name :: later)) := by
  have hfirst : ps.after (.get name :: later) = qs.after later := by
    rw [after, List.foldl_cons, call_get_of_ok hg]
    rfl
  rw [hfirst]
  exact get_of_visible (visible_after_of_not_renews hl (visible_of_get hg hr hs))

end Providers

end ChunkBuild
