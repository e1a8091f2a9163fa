import ChunkBuild.Proofs.Config.Layers
import ChunkBuild.Proofs.Json.ReadBack
/-! # What is shown of settings

All leaves of settings are shown, each as a value that its check takes again. So shown settings fit over
whatever is below them, and as text in JSON they are read back. -/
namespace ChunkBuild

open ChunkBuild.Json ChunkBuild.Text ChunkBuild.Config

variable {s : Settings} {fields : Fields Value}

namespace Config

theorem checkList_map {α : Type} {check : Value → Checked α} {f : α → Value} {xs : List α}
    (h : ∀ a ∈ xs, check (f a) = .fits a) : checkList check (.arr (xs.map f)) = .fits xs := by
  rw [checkList, checkItems_eq_fits, List.forall₂_map_left_iff, List.forall₂_same]
  exact h

theorem exists_of_checkGroup {α : Type} {a : α} {check : Fields Value → Checked α} {v : Value}
    (h : checkGroup check v = .fits a) : ∃ inner, check inner = .fits a := by
  cases v with
  | obj inner => exact ⟨inner, h⟩
  | _ => cases h

theorem nonneg_of_least {n m : Int} (h : (if n < 0 then .misfit .tooSmall else .fits n : Checked Int) =
    .fits m) : 0 ≤ m := by
  split at h
  · cases h
  · next hn =>
    cases h
    exact Int.not_lt.mp hn

theorem nonneg_of_checkCount {v : Value} {n : Int} (h : checkCount v = .fits n) : 0 ≤ n := by
  unfold checkCount at h
  dsimp only at h
  split at h
  · exact nonneg_of_least h
  · next b =>
    cases h
    cases b <;> decide
  · split at h
    · exact nonneg_of_least h
    · cases h
  · split at h
    · split at h
      · exact nonneg_of_least h
      · cases h
    · cases h
  · cases h
  · cases h

theorem isBindingName_of_checkBindingName {v : Value} {name : String}
    (h : checkBindingName v = .fits name) : isBindingName name = true := by
  cases v with
  | str t =>
    rw [checkBindingName] at h
    cases ht : isBindingName t with
    | true =>
      rw [if_pos ht] at h
      cases h
      exact ht
    | false =>
      rw [if_neg (Bool.eq_false_iff.mp ht)] at h
      cases h
  | _ => cases h

end Config

theorem ChunkSettings.check_toFields (c : ChunkSettings) :
    ChunkSettings.check c.toFields = .fits c :=
  ChunkSettings.check_eq_fits.mpr ⟨rfl, rfl, rfl, rfl, rfl, rfl⟩

structure Settings.IsChecked (s : Settings) : Prop where
  leastVersion : 0 ≤ s.resolver.leastVersion
  namespaceName : isBindingName s.compiler.namespaceName = true

theorem Settings.isChecked_of_check (h : Settings.check fields = .fits s) : s.IsChecked := by
  obtain ⟨hresolver, hcompiler, -⟩ := Settings.check_eq_fits.mp h
  constructor
  · refine hresolver.elim (P := fun r => 0 ≤ r.leastVersion) (by decide) fun v hv => ?_
    obtain ⟨inner, hinner⟩ := exists_of_checkGroup hv
    obtain ⟨-, -, hleast, -⟩ := ResolverSettings.check_eq_fits.mp hinner
    exact hleast.elim (by decide) fun _ hv => nonneg_of_checkCount hv
  · refine hcompiler.elim (P := fun c => isBindingName c.namespaceName = true) (by decide +kernel)
      fun v hv => ?_
    obtain ⟨inner, hinner⟩ := exists_of_checkGroup hv
    obtain ⟨-, -, -, hname, -⟩ := CompilerSettings.check_eq_fits.mp hinner
    exact hname.elim (P := fun name => isBindingName name = true) (by decide +kernel)
      fun _ hv => isBindingName_of_checkBindingName hv

/-- What is shown of a leaf is taken again. -/
theorem taken_toFields (hs : s.IsChecked) : ∀ l ∈ leaves, ∃ v, at? s.toFields l.path = some v ∧
    (∀ inner, v ≠ .obj inner) ∧ l.check v = .fits (l.read s) := by
  have hcount : checkCount (.int s.resolver.leastVersion) = .fits s.resolver.leastVersion :=
    if_neg (Int.not_lt.mpr hs.leastVersion)
  have hname : checkBindingName (.str s.compiler.namespaceName) = .fits s.compiler.namespaceName :=
    if_pos hs.namespaceName
  have hversion : ∀ inner, Value.ofOption .str s.compiler.version ≠ .obj inner := by
    intro inner h
    cases hv : s.compiler.version with
    | none =>
      rw [hv] at h
      cases h
    | some t =>
      rw [hv] at h
      cases h
  simp only [leaves, List.forall_mem_cons]
  refine ⟨⟨_, rfl, ?_, rfl⟩, ⟨_, rfl, ?_, rfl⟩, ⟨_, rfl, ?_, hcount⟩, ⟨_, rfl, ?_, rfl⟩,
    ⟨_, rfl, ?_, rfl⟩, ⟨_, rfl, ?_, rfl⟩, ⟨_, rfl, ?_, rfl⟩, ⟨_, rfl, ?_, checkList_map fun _ _ => rfl⟩,
    ⟨_, rfl, ?_, rfl⟩, ⟨_, rfl, ?_, hname⟩, ⟨_, rfl, ?_, rfl⟩, ⟨_, rfl, ?_, rfl⟩, ⟨_, rfl, ?_, rfl⟩,
    ⟨_, rfl, hversion, checkOptionalText_eq_fits.mpr rfl⟩, ⟨_, rfl, ?_, rfl⟩, ⟨_, rfl, ?_, rfl⟩,
    ⟨_, rfl, ?_, rfl⟩, ⟨_, rfl, ?_, checkList_map fun _ _ => rfl⟩, ⟨_, rfl, ?_, rfl⟩,
    ⟨_, rfl, ?_, rfl⟩, ⟨_, rfl, ?_, checkList_map fun c _ => c.check_toFields⟩, ⟨_, rfl, ?_, rfl⟩,
    List.forall_mem_nil _⟩
  all_goals
    intro inner h
    cases h

namespace Config

variable {user : Fields Value}

theorem isLayer_toFields (s : Settings) : IsLayer s.toFields := by
  constructor
  · simp [Settings.toFields]
  · intro name inner hinner
    have hmem := Fields.mem_of_get? hinner
    simp only [Settings.toFields, List.mem_cons, Prod.mk.injEq, Value.obj.injEq, List.not_mem_nil,
      reduceCtorEq, and_false, or_false] at hmem
    rcases hmem with ⟨-, rfl⟩ | ⟨-, rfl⟩ | ⟨-, rfl⟩ | ⟨-, rfl⟩
    · simp [ResolverSettings.toFields]
    · simp [CompilerSettings.toFields]
    · simp [TransformSettings.toFields]
    · simp [BuildSettings.toFields]

theorem givesSections_toFields (s : Settings) : GivesSections s.toFields := by
  simp only [GivesSections, sectionNames, List.forall_mem_cons]
  exact ⟨⟨_, rfl⟩, ⟨_, rfl⟩, ⟨_, rfl⟩, ⟨_, rfl⟩, List.forall_mem_nil _⟩

theorem hasPlainKeys_toFields (s : Settings) : HasPlainKeys s.toFields := by
  have hkeys : s.toFields.map (·.1) =
      ["resolver", "compiler", "transform", "build", "chunks", "debug"] := rfl
  unfold HasPlainKeys
  rw [hkeys]
  decide +kernel

/-- Shown settings hide everything below them. -/
theorem check_layered_toFields (environment : Fields Value) (hs : s.IsChecked) (hl : IsLayer user)
    (hp : HasPlainKeys user) : Settings.check (layered environment user s.toFields []) = .fits s := by
  have hplain : HasPlainKeys (merge user s.toFields) := hp.merge (hasPlainKeys_toFields s)
  have hls := isLayer_toFields s
  have hgs := givesSections_toFields s
  have hltop := (hl.merge hls).recognized hplain
  have hgtop := (hgs.merge hls.nodup).recognized hplain
  have hsame : layered environment user s.toFields [] =
      merge (merge [] environment) (Naming.recognized {} (merge user s.toFields)) := by
    rw [layered, merge]
  rw [hsame]
  refine (check_iff_leaves (hgtop.merge hltop.nodup).maps).mpr fun l hleaf => ?_
  obtain ⟨v, hv, hobj, hcheck⟩ := taken_toFields hs l hleaf
  have hshown := follows_merge user hleaf hls hgs.maps
  have htop := follows_merge (merge [] environment) hleaf hltop hgtop.maps
  rw [at?_recognized hplain hleaf] at htop
  rw [hv, Option.some_or] at hshown
  rw [hshown.eq_some hobj, Option.some_or] at htop
  rw [htop.eq_some hobj]
  exact hcheck

end Config

/-! ## Shown settings in JSON -/

def ChunkSettings.texts (c : ChunkSettings) : List String :=
  [c.name, c.entry, c.exported] ++ c.importAs.toList ++ c.preamble.toList ++ c.postamble.toList

def Settings.texts (s : Settings) : List String :=
  [s.resolver.command, s.resolver.runtime, s.resolver.depsFile, s.resolver.baseFile,
    s.resolver.cacheFile] ++
  ([s.compiler.command, s.compiler.compiledSuffix, s.compiler.namespaceName,
    s.compiler.versionDefine] ++ s.compiler.externs ++ s.compiler.version.toList) ++
  ([s.transform.area, s.transform.sourceRoot] ++ s.transform.holders) ++
  [s.build.buildDirectory, s.build.stagingDirectory] ++ s.chunks.flatMap ChunkSettings.texts

/-- Settings that a text in JSON can carry. -/
structure Settings.IsWritable (s : Settings) : Prop where
  whole : ∀ t ∈ s.texts, IsWhole t
  digits : s.resolver.leastVersion.natAbs < 10 ^ digitLimit

theorem ChunkSettings.isReadable {room : Nat} {c : ChunkSettings} (h : ∀ t ∈ c.texts, IsWhole t) :
    (Value.obj c.toFields).IsReadable (room + 1) := by
  simp only [ChunkSettings.texts, List.forall_mem_append, List.forall_mem_cons] at h
  obtain ⟨⟨⟨⟨hname, hentry, hexported, -⟩, himport⟩, hpreamble⟩, hpostamble⟩ := h
  refine isReadable_obj (show _ = ["name", "entry", "exports", "import_as", "factory_preamble",
    "factory_postamble"] from rfl) (by decide) (by decide) ?_
  simp only [ChunkSettings.toFields, List.forall_mem_cons]
  exact ⟨.str hname, .str hentry, .str hexported, ofOption_isReadable himport,
    ofOption_isReadable hpreamble, ofOption_isReadable hpostamble, List.forall_mem_nil _⟩

theorem Settings.isReadable (h : s.IsWritable) : (Value.obj s.toFields).IsReadable depthLimit := by
  have hwhole := h.whole
  simp only [Settings.texts, List.forall_mem_append, List.forall_mem_cons] at hwhole
  obtain ⟨⟨⟨⟨⟨r₁, r₂, r₃, r₄, r₅, -⟩, ⟨⟨c₁, c₂, c₃, c₄, -⟩, hexterns⟩, hversion⟩,
    ⟨t₁, t₂, -⟩, hholders⟩, b₁, b₂, -⟩, hchunks⟩ := hwhole
  refine isReadable_obj (show _ = ["resolver", "compiler", "transform", "build", "chunks", "debug"]
    from rfl) (by decide) (by decide) ?_
  simp only [Settings.toFields, List.forall_mem_cons]
  refine ⟨?_, ?_, ?_, ?_, ?_, .bool _, List.forall_mem_nil _⟩
  · refine isReadable_obj (show _ = ["command", "node_command", "min_node_version", "deps_file",
      "base_js_path", "cache_file"] from rfl) (by decide) (by decide) ?_
    simp only [ResolverSettings.toFields, List.forall_mem_cons]
    exact ⟨.str r₁, .str r₂, .int h.digits, .str r₃, .str r₄, .str r₅, List.forall_mem_nil _⟩
  · refine isReadable_obj (show _ = ["command", "externs", "compiled_suffix", "namespace_object",
      "debug", "strict", "verbose", "version", "version_define"] from rfl) (by decide) (by decide) ?_
    simp only [CompilerSettings.toFields, List.forall_mem_cons]
    exact ⟨.str c₁, texts_isReadable hexterns, .str c₂, .str c₃, .bool _, .bool _, .bool _,
      ofOption_isReadable hversion, .str c₄, List.forall_mem_nil _⟩
  · refine isReadable_obj (show _ = ["flatten_area", "source_root", "license_holders"] from rfl)
      (by decide) (by decide) ?_
    simp only [TransformSettings.toFields, List.forall_mem_cons]
    exact ⟨.str t₁, .str t₂, texts_isReadable hholders, List.forall_mem_nil _⟩
  · refine isReadable_obj (show _ = ["build_dir", "staging_dir"] from rfl) (by decide) (by decide) ?_
    simp only [BuildSettings.toFields, List.forall_mem_cons]
    exact ⟨.str b₁, .str b₂, List.forall_mem_nil _⟩
  · refine .arr (List.forall_mem_map.mpr fun c hc => ChunkSettings.isReadable fun t ht => ?_)
    exact hchunks t (List.mem_flatMap_of_mem hc ht)

/-- Texts of characters below the marks are carried as they are. -/
theorem Settings.isWritable_of_unmarked
    (ht : (s.texts.all fun t => t.toList.all fun c => decide (c.toNat < firstMark)) = true)
    (hv : s.resolver.leastVersion.natAbs < 100) : s.IsWritable := by
  refine ⟨fun t hmem => ?_, Nat.lt_of_lt_of_le hv (Nat.pow_le_pow_right (by decide) (by decide) :
    10 ^ 2 ≤ 10 ^ digitLimit)⟩
  exact (isWhole_of_unmarked (forall_mem_of_all (List.all_eq_true.mp ht t hmem))).1

end ChunkBuild
