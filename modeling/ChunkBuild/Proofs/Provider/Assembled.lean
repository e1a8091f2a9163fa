import ChunkBuild.Proofs.Host.Jobs
import ChunkBuild.Proofs.Provider.History
import ChunkBuild.Provider.Project
/-! # What is put together after many calls

A resolver or a project takes its parts from a container that may have a long history. Main statement:
every provider is made from the latest settings, directory and registration, a shared one lasts exactly
until one of them may have changed, and so resolvers and projects do not depend on earlier calls. -/
namespace ChunkBuild

open ChunkBuild.Json

/-! ## Jobs that differ in what cannot be told apart -/

namespace Job

variable {α β γ δ : Type} {R : α → β → Prop} {S : γ → δ → Prop} {x : Job α} {y : Job β}
  {f : α → Job γ} {g : β → Job δ}

/-- Two jobs that leave the same behind, and fail alike or give related results. -/
def Alike (R : α → β → Prop) (x : Job α) (y : Job β) : Prop :=
  ∀ h, (∃ a b k, x h = .ok a k ∧ y h = .ok b k ∧ R a b) ∨
    ∃ e k, x h = .error e k ∧ y h = .error e k

theorem alike_pure {a : α} {b : β} (h : R a b) : Alike R (pure a) (pure b) :=
  fun k => .inl ⟨a, b, k, rfl, rfl, h⟩

theorem alike_refl (x : Job α) : Alike Eq x x := by
  intro h
  cases hx : x h with
  | ok a k => exact .inl ⟨a, a, k, rfl, rfl, rfl⟩
  | error e k => exact .inr ⟨e, k, rfl, rfl⟩

theorem alike_bind (hx : Alike R x y) (hf : ∀ a b, R a b → Alike S (f a) (g b)) :
    Alike S (x >>= f) (y >>= g) := by
  intro h
  obtain ⟨a, b, k, ha, hb, hr⟩ | ⟨e, k, ha, hb⟩ := hx h
  · rw [bind_of_ok ha, bind_of_ok hb]
    exact hf a b hr k
  · rw [bind_of_error ha, bind_of_error hb]
    exact .inr ⟨e, k, rfl, rfl⟩

/-- A computation that both jobs do alike. -/
theorem alike_bind_same {w : Job α} {f : α → Job γ} {g : α → Job δ}
    (hf : ∀ a, Alike S (f a) (g a)) : Alike S (w >>= f) (w >>= g) :=
  alike_bind (alike_refl w) fun a _ h => h ▸ hf a

theorem Alike.mono {T : α → β → Prop} (h : Alike R x y) (hrt : ∀ a b, R a b → T a b) :
    Alike T x y := by
  intro k
  obtain ⟨a, b, l, ha, hb, hr⟩ | hfail := h k
  · exact .inl ⟨a, b, l, ha, hb, hrt a b hr⟩
  · exact .inr hfail

theorem map_fst_eq {x : Job (α × β)} {y : Job (α × γ)} (h : Alike (fun a b => a.1 = b.1) x y) :
    Prod.fst <$> x = Prod.fst <$> y := by
  funext k
  change (x >>= fun a => pure a.1) k = (y >>= fun a => pure a.1) k
  obtain ⟨a, b, l, ha, hb, hr⟩ | ⟨e, l, ha, hb⟩ := h k
  · rw [bind_of_ok ha, bind_of_ok hb, hr]
  · rw [bind_of_error ha, bind_of_error hb]

end Job

/-! ## Kinds -/

def Provider.kind : Provider → ProviderKind
  | .calculator _ => .calculator
  | .cache _ => .cache
  | .compiler _ => .compiler
  | .normalizer _ => .normalizer
  | .flattening _ => .flattening

theorem kind_makeCalculator {m : Material} {p : Provider} (h : makeCalculator m = .ok p) :
    p.kind = .calculator := by
  have htool {directory given} (h : makeCalculator.tool directory given = .ok p) :
      p.kind = .calculator := by
    obtain ⟨_, -, h⟩ := except_bind_eq_ok.mp h
    obtain ⟨_, -, h⟩ := except_bind_eq_ok.mp h
    cases h
    rfl
  cases m with
  | nothing => exact htool h
  | value v => exact htool h
  | path q => cases h
  | tool directory given => exact htool h

theorem kind_makeCompiler {m : Material} {p : Provider} (h : makeCompiler m = .ok p) :
    p.kind = .compiler := by
  have htool {directory command} (h : makeCompiler.tool directory command = .ok p) :
      p.kind = .compiler := by
    obtain ⟨_, -, h⟩ := except_bind_eq_ok.mp h
    obtain ⟨_, -, h⟩ := except_bind_eq_ok.mp h
    cases h
    rfl
  cases m with
  | nothing => exact htool h
  | value v => exact htool h
  | path q => cases h
  | tool directory given =>
    rw [makeCompiler] at h
    split at h
    · exact htool h
    · cases h

/-- A provider is of the kind it was asked for. -/
theorem ProviderKind.kind_of_make {kind : ProviderKind} {m : Material} {p : Provider}
    (h : kind.make m = .ok p) : p.kind = kind := by
  cases kind with
  | calculator => exact kind_makeCalculator h
  | cache =>
    cases m with
    | value v =>
      cases v
      all_goals cases h
      rfl
    | path q => cases h; rfl
    | nothing => cases h
    | tool directory given => cases h
  | compiler => exact kind_makeCompiler h
  | normalizer =>
    cases m with
    | nothing => cases h; rfl
    | value v =>
      obtain ⟨items, -, h⟩ := except_bind_eq_ok.mp h
      split at h
      · cases h; rfl
      · cases h
    | path q => cases h
    | tool directory given => cases h
  | flattening =>
    cases m with
    | nothing => cases h; rfl
    | value v => cases h; rfl
    | path q => cases h; rfl
    | tool directory given => cases h

namespace Providers

/-! ## Containers that cannot be told apart -/

variable {ps qs : Providers} {directory : Path} {settings : Value} {f : String × Registration}

structure Stands (directory : Path) (settings : Value) (ps : Providers) : Prop where
  current : ps.IsCurrent
  directory_eq : ps.directory = directory
  settings_eq : ps.settings = settings
  usual : ∀ f ∈ defaultRegistrations, ps.registered.get? f.1 = some f.2

theorem Stands.of_get {name : String} {i : Instance} (hp : Stands directory settings ps)
    (hg : ps.get name = .ok (i, qs)) : Stands directory settings qs := by
  have hq : qs = ps.call (.get name) := (call_get_of_ok hg).symm
  refine ⟨hq ▸ hp.current.call _, ?_, ?_, fun f hf => ?_⟩
  · rw [hq, directory_call, hp.directory_eq]
    rfl
  · rw [hq, settings_call, hp.settings_eq]
    rfl
  · rw [hq, registered_call, hp.usual f hf]
    rfl

theorem make_eq (hp : Stands directory settings ps) (hq : Stands directory settings qs) :
    ps.make = qs.make := by
  have hmake (rs : Providers) : rs.make =
      make { directory := rs.directory, settings := rs.settings } := rfl
  rw [hmake ps, hmake qs, hp.directory_eq, hp.settings_eq, hq.directory_eq, hq.settings_eq]

theorem group_eq (hp : Stands directory settings ps) (hq : Stands directory settings qs) :
    ps.group = qs.group := by
  funext name
  rw [group, group, hp.settings_eq, hq.settings_eq]

def Same (directory : Path) (settings : Value) {α : Type} (a b : α × Providers) : Prop :=
  a.1 = b.1 ∧ Stands directory settings a.2 ∧ Stands directory settings b.2

theorem alike_fetch (hp : Stands directory settings ps) (hq : Stands directory settings qs)
    (hf : f ∈ defaultRegistrations) :
    Job.Alike (Same directory settings) (ps.fetch f.1) (qs.fetch f.1) := by
  have hsame : (ps.get f.1).map (·.1.provider) = (qs.get f.1).map (·.1.provider) := by
    rw [hp.current.provider_get f.1, hq.current.provider_get f.1, hp.usual f hf, hq.usual f hf, anew, anew,
      make_eq hp hq]
  have hhas : ps.registered.has f.1 = qs.registered.has f.1 := by
    rw [Fields.has, Fields.has, hp.usual f hf, hq.usual f hf]
  unfold fetch
  cases hgp : ps.get f.1 with
  | error e =>
    cases hgq : qs.get f.1 with
    | error e' =>
      rw [hgp, hgq] at hsame
      cases hsame
      dsimp only
      rw [hhas]
      intro h
      split
      · exact .inr ⟨e, _, rfl, rfl⟩
      · exact .inr ⟨e, _, rfl, rfl⟩
    | ok b =>
      rw [hgp, hgq] at hsame
      cases hsame
  | ok a =>
    cases hgq : qs.get f.1 with
    | error e =>
      rw [hgp, hgq] at hsame
      cases hsame
    | ok b =>
      rw [hgp, hgq] at hsame
      exact Job.alike_pure ⟨Except.ok.inj hsame, hp.of_get hgp, hq.of_get hgq⟩

theorem alike_resolver (hp : Stands directory settings ps) (hq : Stands directory settings qs) :
    Job.Alike (Same directory settings) ps.resolver qs.resolver := by
  unfold resolver
  refine Job.alike_bind (alike_fetch hp hq (f := ("graph_calculator", ⟨.calculator, true⟩)) (by decide)) ?_
  rintro ⟨calculator, ps⟩ ⟨_, qs⟩ ⟨rfl, hp, hq⟩
  refine Job.alike_bind (alike_fetch hp hq (f := ("resolver_cache", ⟨.cache, true⟩)) (by decide)) ?_
  rintro ⟨cache, ps⟩ ⟨_, qs⟩ ⟨rfl, hp, hq⟩
  refine Job.alike_pure ⟨?_, hp, hq⟩
  rw [hp.directory_eq, hq.directory_eq]

theorem alike_project (hp : Stands directory settings ps) (hq : Stands directory settings qs) :
    Job.Alike (Same directory settings) ps.project qs.project := by
  unfold project
  refine Job.alike_bind (alike_resolver hp hq) ?_
  rintro ⟨resolver, ps⟩ ⟨_, qs⟩ ⟨rfl, hp, hq⟩
  have hwrapper : ps.wrapperSettings = qs.wrapperSettings := by
    rw [wrapperSettings, wrapperSettings, group_eq hp hq]
  have hstyle : ps.wrapperStyle = qs.wrapperStyle := by
    rw [wrapperStyle, wrapperStyle, hwrapper]
  dsimp only
  rw [hwrapper, hstyle]
  refine Job.alike_bind_same fun namespaceObject => ?_
  refine Job.alike_bind_same fun style => ?_
  refine Job.alike_bind (alike_fetch hp hq (f := ("compiler", ⟨.compiler, true⟩)) (by decide)) ?_
  rintro ⟨compiler, ps⟩ ⟨_, qs⟩ ⟨rfl, hp, hq⟩
  have hoptions : ps.options = qs.options := by
    rw [options, options, group_eq hp hq]
  dsimp only
  rw [group_eq hp hq, hoptions]
  refine Job.alike_bind_same fun resolverGroup => ?_
  refine Job.alike_bind_same fun buildGroup => ?_
  refine Job.alike_bind_same fun options => ?_
  refine Job.alike_bind
    (alike_fetch hp hq (f := ("license_normalizer", ⟨.normalizer, true⟩)) (by decide)) ?_
  rintro ⟨normalizer, ps⟩ ⟨_, qs⟩ ⟨rfl, hp, hq⟩
  refine Job.alike_bind
    (alike_fetch hp hq (f := ("path_transform", ⟨.flattening, true⟩)) (by decide)) ?_
  rintro ⟨transform, ps⟩ ⟨_, qs⟩ ⟨rfl, hp, hq⟩
  dsimp only
  rw [group_eq hp hq, hp.directory_eq, hq.directory_eq]
  refine Job.alike_bind_same fun transformGroup => ?_
  refine Job.alike_bind_same fun buildDirectory => ?_
  refine Job.alike_bind_same fun stagingDirectory => ?_
  exact Job.alike_pure ⟨rfl, hp, hq⟩

theorem usual_registrations :
    ∀ f ∈ defaultRegistrations, defaultRegistrations.get? f.1 = some f.2 := by decide

theorem latest_settings {later : List Call} (hl : ∀ c ∈ later, c.settings? = none)
    (calls : List Call) (settings : Value) (given : Option Path) :
    Call.latest? Call.settings? (calls ++ .configure settings given :: later) = some settings := by
  induction later using List.reverseRecOn with
  | nil => exact Call.latest?_concat _ _ _
  | append_singleton later c ih =>
    obtain ⟨hl, hc⟩ := List.forall_mem_append.mp hl
    rw [← List.cons_append, ← List.append_assoc, Call.latest?_concat,
      List.forall_mem_singleton.mp hc, ih hl]
    rfl

theorem latest_directory {later : List Call} (hl : ∀ c ∈ later, c.settings? = none)
    (calls : List Call) (settings : Value) (directory : Path) :
    Call.latest? Call.directory? (calls ++ .configure settings (some directory) :: later) =
      some directory := by
  induction later using List.reverseRecOn with
  | nil => exact Call.latest?_concat _ _ _
  | append_singleton later c ih =>
    obtain ⟨hl, hc⟩ := List.forall_mem_append.mp hl
    have hnone : c.directory? = none := by
      cases c with
      | configure settings given => cases List.forall_mem_singleton.mp hc
      | register name kind isShared => rfl
      | get name => rfl
    rw [← List.cons_append, ← List.append_assoc, Call.latest?_concat, hnone, ih hl]
    rfl

theorem stands_after {calls later : List Call} (hl : ∀ c ∈ later, c.settings? = none)
    (hr : ∀ f ∈ defaultRegistrations, (Call.latest? (Call.registration? f.1)
      (calls ++ .configure settings (some directory) :: later)).getD f.2 = f.2)
    (hs : ps.shared = []) (hd : ps.registered = defaultRegistrations) :
    Stands directory settings
      (ps.after (calls ++ .configure settings (some directory) :: later)) := by
  refine ⟨(isCurrent_of_shared_nil hs).after _, ?_, ?_, fun f hf => ?_⟩
  · rw [directory_after, latest_directory hl]
    rfl
  · rw [settings_after, latest_settings hl]
    rfl
  · rw [registered_after, registrationAfter, hd, usual_registrations f hf]
    have hlatest := hr f hf
    cases hf : Call.latest? (Call.registration? f.1)
        (calls ++ .configure settings (some directory) :: later) with
    | none => rfl
    | some r =>
      rw [hf] at hlatest
      exact congrArg some hlatest

/-- A new container is as good as any that was given the same settings and directory. -/
theorem stands_new (directory : Path) (settings : Value) :
    Stands directory settings { directory := directory, settings := settings } :=
  ⟨isCurrent_of_shared_nil rfl, rfl, rfl, usual_registrations⟩

end Providers

open Providers in
/-- Providers, resolvers and projects depend on the latest settings, directory and registrations only. -/
theorem providers_follow_latest_calls :
    (∀ {κ ι : Type} [Makes κ ι] (start : Providers κ ι), start.shared = [] →
      ∀ (calls : List (Call κ)) (name : String),
        ((start.after calls).get name).map (·.1.provider) =
          (start.renewed calls).anew name (start.registrationAfter calls name) ∧
        (∀ i ps r, (start.after calls).get name = .ok (i, ps) →
          start.registrationAfter calls name = some r →
          (r.isShared = true → ∀ later, (∀ c ∈ later, ¬ c.Renews name) →
            ∃ ps, (start.after (calls ++ .get name :: later)).get name = .ok (i, ps)) ∧
          (r.isShared = false ∨ ¬ AskedSince calls name →
            ∀ j, start.Answers calls j → j.serial ≠ i.serial)) ∧
        ∀ e, (start.after calls).get name = .error e →
          start.after (calls ++ [.get name]) = start.after calls) ∧
    ∀ (start : Providers) (calls : List Call), start.shared = [] →
      (∀ name i ps, (start.after calls).get name = .ok (i, ps) →
        ∃ r, start.registrationAfter calls name = some r ∧ i.provider.kind = r.kind) ∧
      (start.registered = defaultRegistrations →
        ∀ settings directory later, (∀ c ∈ later, c.settings? = none) →
          (∀ f ∈ defaultRegistrations, (Call.latest? (Call.registration? f.1)
            (calls ++ .configure settings (some directory) :: later)).getD f.2 = f.2) →
          Prod.fst <$> (start.after
              (calls ++ .configure settings (some directory) :: later)).resolver =
            Prod.fst <$> resolver { directory := directory, settings := settings } ∧
          Prod.fst <$> (start.after
              (calls ++ .configure settings (some directory) :: later)).project =
            Prod.fst <$> project { directory := directory, settings := settings }) := by
  refine ⟨?_, ?_⟩
  · intro κ ι _ start hstart calls name
    have hcurrent := (isCurrent_of_shared_nil hstart).after calls
    refine ⟨?_, ?_, ?_⟩
    · rw [hcurrent.provider_get name, registered_after, anew_after]
    · intro i ps r hg hr
      rw [← registered_after] at hr
      refine ⟨fun hs later hl => ?_, fun hnew j hj => ?_⟩
      · rw [after_append]
        exact ⟨_, get_again hg hr hs hl⟩
      · exact serial_new hstart hg hr hnew hj
    · intro e he
      rw [after_concat, call_get_of_error he]
  · intro start calls hstart
    refine ⟨?_, ?_⟩
    · intro name i ps hg
      have hanew := ((isCurrent_of_shared_nil hstart).after calls).provider_get name
      obtain ⟨r, hr, -⟩ := get_eq_ok hg
      rw [hg, hr] at hanew
      obtain ⟨m, -, hmake⟩ := except_bind_eq_ok.mp hanew.symm
      rw [registered_after] at hr
      exact ⟨r, hr, ProviderKind.kind_of_make hmake⟩
    · intro husual settings directory later hl hr
      have hafter := stands_after hl hr hstart husual
      have hnew := stands_new directory settings
      exact ⟨Job.map_fst_eq ((alike_resolver hafter hnew).mono fun _ _ h => h.1),
        Job.map_fst_eq ((alike_project hafter hnew).mono fun _ _ h => h.1)⟩

/-! ## A cache that was something else in between -/

def keptSettings : Value := .obj [("resolver", .obj [("cache_file", .str "k.json")])]

def cacheCalls : List Call :=
  [.get "resolver_cache", .register "resolver_cache" .flattening false, .get "resolver_cache",
    .configure keptSettings (some ⟨.root, ["q"]⟩), .register "resolver_cache" .cache true]

def roamingProviders : Providers := { directory := ⟨.root, ["p"]⟩ }

theorem roaming_cache : ∃ ps, (roamingProviders.after cacheCalls).get "resolver_cache" =
    .ok (⟨2, .cache ⟨⟨.root, ["q", "k.json"]⟩⟩⟩, ps) := ⟨_, rfl⟩

theorem roaming_cache_is_current :
    (∃ ps, (roamingProviders.after (cacheCalls ++ [.get "resolver_cache", .get "path_transform"])).get
      "resolver_cache" = .ok (⟨2, .cache ⟨⟨.root, ["q", "k.json"]⟩⟩⟩, ps)) ∧
    (∀ j, roamingProviders.Answers cacheCalls j → j.serial ≠ 2) ∧
    Prod.fst <$> (roamingProviders.after cacheCalls).resolver =
      Prod.fst <$> Providers.resolver { directory := ⟨.root, ["q"]⟩, settings := keptSettings } ∧
    Prod.fst <$> (roamingProviders.after cacheCalls).project =
      Prod.fst <$> Providers.project { directory := ⟨.root, ["q"]⟩, settings := keptSettings } := by
  obtain ⟨hcalls, husual⟩ := providers_follow_latest_calls
  obtain ⟨ps, hg⟩ := roaming_cache
  obtain ⟨-, hanswer, -⟩ := hcalls roamingProviders rfl cacheCalls "resolver_cache"
  obtain ⟨hlasts, hnew⟩ := hanswer _ ps ⟨.cache, true⟩ hg rfl
  obtain ⟨-, hparts⟩ := husual roamingProviders (cacheCalls.take 3) rfl
  have hkeeps : ∀ c ∈ ([.get "path_transform"] : List Call), ¬ c.Renews "resolver_cache" :=
    List.forall_mem_singleton.mpr id
  have hlast : cacheCalls = cacheCalls.take 4 ++ [.register "resolver_cache" .cache true] := rfl
  have hrenewed : ¬ Providers.AskedSince cacheCalls "resolver_cache" := by
    rw [hlast]
    exact Providers.not_askedSince_concat rfl
  exact ⟨hlasts rfl _ hkeeps, hnew (.inr hrenewed),
    hparts rfl keptSettings ⟨.root, ["q"]⟩ [.register "resolver_cache" .cache true]
      (by decide) (by decide)⟩

end ChunkBuild
