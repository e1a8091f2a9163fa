import ChunkBuild.Proofs.Config.Keys
/-! # Settings under plain keys

Keys that are no settings may say how settings are read, and letter case does not count in the names of
settings. Plain keys are neither such parameters nor settings in other letters: under them every field
is read for itself, over what the environment says. -/
namespace ChunkBuild.Config

open ChunkBuild.Json ChunkBuild.Text

variable {fields base new : Fields Value} {key : String} {h k : Host}

/-! ## Plain keys -/

/-- The keys that are no settings but say how settings are read. -/
def parameters : List String :=
  [reservedKey, "_build_sources", "_env_prefix", "_env_prefix_target", "_env_nested_delimiter",
    "_env_nested_max_split", "_case_sensitive", "_env_ignore_empty", "_env_parse_none_str",
    "_env_file", "_secrets_dir", "_cli_parse_args"]

/-- A key that is no parameter, and no setting in another letter case. -/
def IsPlainKey (key : String) : Prop :=
  key ∉ parameters ∧ (lower key ∈ settingNames → key ∈ settingNames)

instance : Decidable (IsPlainKey key) := inferInstanceAs (Decidable (_ ∧ _))

def HasPlainKeys (fields : Fields Value) : Prop := ∀ key ∈ fields.map (·.1), IsPlainKey key

instance : Decidable (HasPlainKeys fields) :=
  inferInstanceAs (Decidable (∀ key ∈ fields.map (·.1), IsPlainKey key))

namespace HasPlainKeys

theorem merge (hb : HasPlainKeys base) (hn : HasPlainKeys new) : HasPlainKeys (merge base new) :=
  fun key hkey => (mem_keys_merge hkey).elim (hb key) (hn key)

theorem put {v : Value} (hp : HasPlainKeys fields) (hk : IsPlainKey key) :
    HasPlainKeys (fields.put key v) := by
  intro other hother
  rcases Fields.mem_keys_put hother with hother | rfl
  · exact hp other hother
  · exact hk

theorem get?_eq_none (hp : HasPlainKeys fields) (hk : key ∈ parameters) : fields.get? key = none :=
  Fields.get?_eq_none fun hkey => (hp key hkey).1 hk

theorem lookup_eq_null (hp : HasPlainKeys fields) (hk : key ∈ parameters) :
    lookup fields key = .null := by
  rw [lookup, hp.get?_eq_none hk]
  rfl

theorem naming (hp : HasPlainKeys fields) : Naming.ofFields fields = .ok {} := by
  have hnone {key : String} (hk : key ∈ parameters) := hp.get?_eq_none hk
  have hnull {key : String} (hk : key ∈ parameters) := hp.lookup_eq_null hk
  simp only [Naming.ofFields, hnone (by decide : "_env_prefix" ∈ parameters),
    hnone (by decide : "_env_prefix_target" ∈ parameters),
    hnone (by decide : "_env_nested_delimiter" ∈ parameters),
    hnull (by decide : "_env_nested_max_split" ∈ parameters),
    hnull (by decide : "_case_sensitive" ∈ parameters),
    hnull (by decide : "_env_ignore_empty" ∈ parameters),
    hnull (by decide : "_env_parse_none_str" ∈ parameters)]
  rfl

end HasPlainKeys

def environmentFields (h : Host) : Except Failure (Fields Value) :=
  ofEnvironment "EnvSettingsSource" {} (h.environment.map fun (name, text) => (name, some text))

theorem surrounding_of_plain (hp : HasPlainKeys fields) : surrounding {} fields h =
    match environmentFields h with
    | .ok env => .ok { below := merge [] env } h
    | .error e => .error e h := by
  have hnull {key : String} (hk : key ∈ parameters) := hp.lookup_eq_null hk
  unfold surrounding ofArguments
  simp only [hnull (by decide : "_env_file" ∈ parameters),
    hnull (by decide : "_secrets_dir" ∈ parameters),
    hnull (by decide : "_cli_parse_args" ∈ parameters)]
  unfold environmentFields
  rw [Job.get_bind]
  generalize ofEnvironment "EnvSettingsSource" {} _ = env
  cases env with
  | ok env => rfl
  | error e => rfl

theorem settings_eq_ok {c : Checked Settings} (hp : HasPlainKeys fields) :
    settings fields h = .ok c k ↔ ∃ env, environmentFields h = .ok env ∧
      c = Settings.check (merge (merge [] env) (Naming.recognized {} fields)) ∧ k = h := by
  have hreserved : fields.has reservedKey = false := by
    rw [Fields.has, hp.get?_eq_none (by decide)]
    rfl
  unfold settings
  rw [hreserved, if_neg Bool.false_ne_true, hp.lookup_eq_null (by decide)]
  dsimp only
  rw [hp.naming, Job.bind_of_ok Job.lift_ok]
  constructor
  · intro hs
    obtain ⟨outside, _, houtside, hs⟩ := Job.bind_eq_ok.mp hs
    rw [surrounding_of_plain hp] at houtside
    split at houtside
    · next env henv =>
      cases houtside
      cases hs
      exact ⟨env, henv, rfl, rfl⟩
    · cases houtside
  · rintro ⟨env, henv, rfl, rfl⟩
    have houtside := surrounding_of_plain (h := k) hp
    rw [henv] at houtside
    rw [Job.bind_of_ok houtside]
    rfl

/-! ## Recognized settings -/

theorem lower_settingNames : ∀ name ∈ settingNames, lower name = name := by decide

theorem find?_spelled {name : String} (hp : HasPlainKeys fields) (hn : name ∈ settingNames) :
    (fields.find? fun f => Naming.spelled {} f.1 = name).map (·.2) = fields.get? name := by
  induction fields with
  | nil => rfl
  | cons f r ih =>
    obtain ⟨hf, hr⟩ := List.forall_mem_cons.mp hp
    have hspelled : Naming.spelled {} f.1 = name ↔ f.1 = name := by
      constructor
      · intro hspelled
        have hlower : lower f.1 = name := hspelled
        have hmem : f.1 ∈ settingNames := hf.2 (hlower.symm ▸ hn)
        exact (lower_settingNames _ hmem).symm.trans hlower
      · rintro rfl
        exact lower_settingNames _ hn
    rw [List.find?_cons, Fields.get?, ← ih hr]
    by_cases hname : f.1 = name
    · rw [if_pos hname, decide_eq_true (hspelled.mpr hname)]
      rfl
    · rw [if_neg hname, decide_eq_false fun hl => hname (hspelled.mp hl)]

/-- Plain keys are recognized as they are. -/
theorem recognized_of_plain (hp : HasPlainKeys fields) : Naming.recognized {} fields =
    Fields.picked fields.get? settingNames := by
  refine List.filterMap_congr fun name hn => ?_
  rw [← find?_spelled hp hn, Option.map_map]
  rfl

theorem get?_recognized {name : String} (hp : HasPlainKeys fields) (hn : name ∈ settingNames) :
    (Naming.recognized {} fields).get? name = fields.get? name := by
  rw [recognized_of_plain hp, Fields.get?_picked hn]

/-- Settings that are given stand over what is below them, each for itself. -/
theorem get?_merge_recognized {name : String} (hp : HasPlainKeys fields) (hn : name ∈ settingNames) :
    (Config.merge base (Naming.recognized {} fields)).get? name =
      match fields.get? name with
      | none => base.get? name
      | some v => some (mergeValue (base.get? name) v) := by
  have hnodup : ((Naming.recognized {} fields).map (·.1)).Nodup := by
    rw [recognized_of_plain hp]
    exact Fields.nodup_picked (by decide)
  rw [← get?_recognized hp hn]
  exact get?_merge hnodup

theorem sectionNames_subset : ∀ name ∈ sectionNames, name ∈ settingNames := by decide

theorem MapsSections.recognized (hp : HasPlainKeys fields) (hm : MapsSections fields) :
    MapsSections (Naming.recognized {} fields) := by
  intro name hn v hv
  rw [get?_recognized hp (sectionNames_subset name hn)] at hv
  exact hm name hn v hv

theorem GivesSections.recognized (hp : HasPlainKeys fields) (hg : GivesSections fields) :
    GivesSections (Naming.recognized {} fields) := by
  intro name hn
  rw [get?_recognized hp (sectionNames_subset name hn)]
  exact hg name hn

theorem IsLayer.recognized (hp : HasPlainKeys fields) (hl : IsLayer fields) :
    IsLayer (Naming.recognized {} fields) := by
  rw [recognized_of_plain hp]
  refine ⟨Fields.nodup_picked (by decide), fun {name inner} hinner => ?_⟩
  exact hl.inner_nodup (Fields.mem_picked.mp (Fields.mem_of_get? hinner)).2

theorem at?_recognized {l : Leaf} (hp : HasPlainKeys fields) (hl : l ∈ leaves) :
    at? (Naming.recognized {} fields) l.path = at? fields l.path := by
  rcases leaf_path l hl with ⟨name, hn, key, hpath⟩ | ⟨key, hk, hpath⟩
  · rw [hpath]
    simp only [at?, sectionOf, get?_recognized hp (sectionNames_subset name hn)]
  · rw [hpath]
    exact get?_recognized hp hk

end ChunkBuild.Config
