import ChunkBuild.Proofs.Chunk.Record
import ChunkBuild.Proofs.Config.Snapshot
/-! # Registries as settings

The records of a registry are read as that registry. As settings they also have to fit, which they do when
overrides are texts; what is shown of them then are the same records. Main statement: a registry is read
back from its records, and from settings over whatever else is given. -/
namespace ChunkBuild

open ChunkBuild.Json ChunkBuild.Config

variable {r : Registry} {c : Chunk} {s t : ChunkSettings} {cs : List ChunkSettings}
  {fields env : Fields Value} {h k : Host}

/-! ## Records as settings -/

def HasTextOverrides (c : Chunk) : Prop := IsTextual c.preamble ∧ IsTextual c.postamble

theorem isTextual_iff {v : Value} : IsTextual v ↔ ∃ o, v = Value.ofOption .str o := by
  constructor
  · rintro (rfl | ⟨t, rfl⟩)
    · exact ⟨none, rfl⟩
    · exact ⟨some t, rfl⟩
  · rintro ⟨o, rfl⟩
    cases o with
    | none => exact .inl rfl
    | some t => exact .inr ⟨t, rfl⟩

theorem lookup_toRecord (c : Chunk) :
    lookup c.toRecord "name" = .str c.name ∧ lookup c.toRecord "entry" = .str c.entryPoint ∧
      lookup c.toRecord "exports" = .str c.exportsPath ∧
      lookup c.toRecord "import_as" = .str c.importAlias := by
  rw [lookup, lookup, lookup, lookup, c.get?_toRecord (by decide) (by decide),
    c.get?_toRecord (by decide) (by decide), c.get?_toRecord (by decide) (by decide),
    c.get?_toRecord (by decide) (by decide)]
  exact ⟨rfl, rfl, rfl, rfl⟩

theorem ChunkSettings.check_toRecord_eq_fits : ChunkSettings.check c.toRecord = .fits s ↔
    ∃ p q, c.preamble = Value.ofOption .str p ∧ c.postamble = Value.ofOption .str q ∧
      s = ⟨c.name, c.entryPoint, c.exportsPath, some c.importAlias, p, q⟩ := by
  obtain ⟨hname, hentry, hexports, halias⟩ := lookup_toRecord c
  obtain ⟨-, -, -, -, hpreamble, hpostamble⟩ := declares_toRecord c
  rw [ChunkSettings.check_eq_fits, hname, hentry, hexports, halias, hpreamble, hpostamble]
  constructor
  · obtain ⟨name, entry, exported, importAs, p, q⟩ := s
    rintro ⟨⟨⟩, ⟨⟩, ⟨⟩, hgiven, hp, hq⟩
    cases importAs with
    | none => cases hgiven
    | some a =>
      cases hgiven
      exact ⟨p, q, hp, hq, rfl⟩
  · rintro ⟨p, q, hp, hq, rfl⟩
    exact ⟨rfl, rfl, rfl, rfl, hp, hq⟩

theorem exists_check_toRecord_iff :
    (∃ s, ChunkSettings.check c.toRecord = .fits s) ↔ HasTextOverrides c := by
  rw [HasTextOverrides, isTextual_iff, isTextual_iff]
  constructor
  · rintro ⟨s, hs⟩
    obtain ⟨p, q, hp, hq, -⟩ := ChunkSettings.check_toRecord_eq_fits.mp hs
    exact ⟨⟨p, hp⟩, q, hq⟩
  · rintro ⟨⟨p, hp⟩, q, hq⟩
    exact ⟨_, ChunkSettings.check_toRecord_eq_fits.mpr ⟨p, q, hp, hq, rfl⟩⟩

/-- A record that fits is given again; only what was not declared is left out. -/
theorem toRecord_of_check (hs : ChunkSettings.check c.toRecord = .fits s) :
    s.toRecord = c.toRecord := by
  obtain ⟨p, q, hp, hq, rfl⟩ := ChunkSettings.check_toRecord_eq_fits.mp hs
  rw [Chunk.toRecord, hp, hq]
  cases p <;> cases q <;> rfl

/-! ## Registries as settings -/

def Registry.listed (r : Registry) : Value := .arr (r.toRecords.map .obj)

theorem checkList_listed : checkList (checkGroup ChunkSettings.check) r.listed = .fits cs ↔
    List.Forall₂ (fun c s => ChunkSettings.check c.toRecord = .fits s) r.chunks cs := by
  rw [Registry.listed, checkList, checkItems_eq_fits, Registry.toRecords, List.forall₂_map_left_iff,
    List.forall₂_map_left_iff]
  rfl

theorem exists_checkList_iff :
    (∃ cs, checkList (checkGroup ChunkSettings.check) r.listed = .fits cs) ↔
      ∀ c ∈ r.chunks, HasTextOverrides c := by
  simp only [checkList_listed, exists_forall₂_iff, exists_check_toRecord_iff]

theorem toRecords_of_checkList
    (hcs : checkList (checkGroup ChunkSettings.check) r.listed = .fits cs) :
    cs.map ChunkSettings.toRecord = r.toRecords := by
  have hrecords : List.Forall₂ (fun c s => s.toRecord = c.toRecord) r.chunks cs :=
    (checkList_listed.mp hcs).imp fun _ _ hs => toRecord_of_check hs
  rw [Registry.toRecords, ← List.forall₂_eq_eq_eq, List.forall₂_map_left_iff,
    List.forall₂_map_right_iff]
  exact List.Forall₂.flip hrecords

def declaring (r : Registry) (fields : Fields Value) : Fields Value := fields.put "chunks" r.listed

theorem hasPlainKeys_declaring (hp : HasPlainKeys fields) : HasPlainKeys (declaring r fields) :=
  hp.put (by decide)

/-- Nothing but the declared chunks is changed, and these replace what is below them. -/
theorem get?_declaring (hp : HasPlainKeys fields) (below : Fields Value) :
    (merge below (Naming.recognized {} (declaring r fields))).get? "chunks" = some r.listed ∧
      ∀ name ∈ settingNames, name ≠ "chunks" →
        (merge below (Naming.recognized {} (declaring r fields))).get? name =
          (merge below (Naming.recognized {} fields)).get? name := by
  have hdeclaring := hasPlainKeys_declaring (r := r) hp
  constructor
  · rw [get?_merge_recognized hdeclaring (by decide), declaring, Fields.get?_put_self]
    exact congrArg some (mergeValue_of_not_obj fun _ h => nomatch h)
  · intro name hn hne
    rw [get?_merge_recognized hdeclaring hn, get?_merge_recognized hp hn, declaring,
      Fields.get?_put_of_ne (Ne.symm hne)]

theorem checkList_of_declaring {t : Settings} (hp : HasPlainKeys fields)
    (ht : settings (declaring r fields) h = .ok (.fits t) k) :
    checkList (checkGroup ChunkSettings.check) r.listed = .fits t.chunks := by
  obtain ⟨env, -, hfits, -⟩ := (settings_eq_ok (hasPlainKeys_declaring hp)).mp ht
  obtain ⟨-, -, -, -, hchunks, -⟩ := Settings.check_eq_fits.mp hfits.symm
  rwa [(get?_declaring hp (merge [] env)).1] at hchunks

/-- Settings that fit do so with other chunks when these fit. -/
theorem settings_declaring {s : Settings} (hp : HasPlainKeys fields)
    (hs : settings fields h = .ok (.fits s) k)
    (hcs : checkList (checkGroup ChunkSettings.check) r.listed = .fits cs) :
    settings (declaring r fields) h = .ok (.fits { s with chunks := cs }) k := by
  obtain ⟨env, henv, hfits, hk⟩ := (settings_eq_ok hp).mp hs
  obtain ⟨hresolver, hcompiler, htransform, hbuild, -, hdebug⟩ :=
    Settings.check_eq_fits.mp hfits.symm
  obtain ⟨hchunks, hother⟩ := get?_declaring (r := r) hp (merge [] env)
  refine (settings_eq_ok (hasPlainKeys_declaring hp)).mpr ⟨env, henv, ?_, hk⟩
  refine (Settings.check_eq_fits.mpr ⟨?_, ?_, ?_, ?_, ?_, ?_⟩).symm
  · rwa [hother "resolver" (by decide) (by decide)]
  · rwa [hother "compiler" (by decide) (by decide)]
  · rwa [hother "transform" (by decide) (by decide)]
  · rwa [hother "build" (by decide) (by decide)]
  · rw [hchunks]
    exact hcs
  · rwa [hother "debug" (by decide) (by decide)]

/-- A registry is read back from its records. Declared by them, it is the registry of the settings on
every host and over whatever else is given, as long as all of that fits: what is declared fits exactly
when overrides are texts. -/
theorem declared_registry_kept (r : Registry) :
    Registry.ofRecords r.toRecords = .ok r ∧
    ∀ (fields : Fields Value) (h k : Host) (s : Settings), HasPlainKeys fields →
      settings fields h = .ok (.fits s) k →
      ((∃ t, settings (declaring r fields) h = .ok (.fits t) k) ↔
        ∀ c ∈ r.chunks, HasTextOverrides c) ∧
      ∀ t, settings (declaring r fields) h = .ok (.fits t) k → t.registry = .ok r := by
  refine ⟨r.ofRecords_toRecords, fun fields h k s hp hs => ⟨⟨?_, ?_⟩, fun t ht => ?_⟩⟩
  · rintro ⟨t, ht⟩
    exact exists_checkList_iff.mp ⟨t.chunks, checkList_of_declaring hp ht⟩
  · intro htexts
    obtain ⟨cs, hcs⟩ := exists_checkList_iff.mpr htexts
    exact ⟨{ s with chunks := cs }, settings_declaring hp hs hcs⟩
  · rw [Settings.registry, toRecords_of_checkList (checkList_of_declaring hp ht)]
    exact r.ofRecords_toRecords

/-! ## A chunk with an empty override -/

def bare : Registry :=
  ⟨[⟨⟨"base", "main.js", "App.core", "core", .str "", .null⟩, by decide +kernel⟩], rfl⟩

theorem bare_registry_kept : Registry.ofRecords bare.toRecords = .ok bare ∧ HasPlainKeys [] ∧
    settings [] plainHost = .ok (.fits {}) plainHost ∧ (∀ c ∈ bare.chunks, HasTextOverrides c) ∧
    ∃ t, settings (declaring bare []) plainHost = .ok (.fits t) plainHost ∧ t.registry = .ok bare := by
  obtain ⟨hback, hdeclared⟩ := declared_registry_kept bare
  have hplain : HasPlainKeys [] := List.forall_mem_nil _
  have hs : settings [] plainHost = .ok (.fits {}) plainHost :=
    (settings_eq_ok hplain).mpr ⟨[], rfl, rfl, rfl⟩
  have htexts : ∀ c ∈ bare.chunks, HasTextOverrides c :=
    List.forall_mem_singleton.mpr ⟨.inr ⟨"", rfl⟩, .inl rfl⟩
  obtain ⟨hfits, hregistry⟩ := hdeclared [] plainHost plainHost {} hplain hs
  obtain ⟨t, ht⟩ := hfits.mpr htexts
  exact ⟨hback, hplain, hs, htexts, t, ht, hregistry t ht⟩

end ChunkBuild
