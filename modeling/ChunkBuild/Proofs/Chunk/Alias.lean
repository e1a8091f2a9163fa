import ChunkBuild.Proofs.Chunk.Record
import ChunkBuild.Proofs.Text.Occurrence
import ChunkBuild.Proofs.Text.Pieces
/-! # The alias of an exports path

A record may leave its alias out. The alias is then the exports path without dots, which is the parts of
the path run together. Whatever stands in a name may continue one, so names run together are a name.
Main statement: such a record gives a chunk when its other fields have no problem, for parts that are
names run together to a name. -/
namespace ChunkBuild.Text

variable {cs : List Char} {c : Char} {s t : String} {parts : List String}

theorem continuesName_of_mem (h : isIdentifierChars cs = true) (hc : c ∈ cs) :
    continuesName c = true := by
  cases cs with
  | nil => cases hc
  | cons d r =>
    rw [isIdentifierChars, Bool.and_eq_true] at h
    rcases List.mem_cons.mp hc with rfl | hr
    · exact continuesName_of_startsName h.1
    · exact List.all_eq_true.mp h.2 c hr

theorem notMem_of_isBindingName (hc : continuesName (readDollar c) = false)
    (h : isBindingName s = true) : c ∉ s.toList := by
  intro hmem
  have hcontinues := continuesName_of_mem h (List.mem_map_of_mem hmem)
  rw [hc] at hcontinues
  cases hcontinues

theorem isBindingName_append (hs : isBindingName s = true) (ht : isBindingName t = true) :
    isBindingName (s ++ t) = true := by
  rw [isBindingName, String.toList_append, List.map_append]
  apply isIdentifierChars_append hs
  rw [List.all_eq_true]
  intro c hc
  exact continuesName_of_mem ht hc

/-- Names run together, one after the other. -/
theorem isBindingName_join (hne : parts ≠ []) (h : ∀ p ∈ parts, isBindingName p = true) :
    isBindingName (join "" parts) = true := by
  fun_induction join "" parts with
  | case1 => exact absurd rfl hne
  | case2 p => exact h p List.mem_cons_self
  | case3 p q r ih =>
    obtain ⟨hp, hrest⟩ := List.forall_mem_cons.mp h
    rw [String.append_empty]
    exact isBindingName_append hp (ih (List.cons_ne_nil q r) hrest)

end ChunkBuild.Text

namespace ChunkBuild

open ChunkBuild.Text ChunkBuild.Json

variable {record : Fields Value} {name entryPoint exportsPath s : String} {parts : List String}

theorem toList_defaultImportAlias (s : String) :
    (defaultImportAlias s).toList = s.toList.filter (· ≠ '.') := by
  rw [defaultImportAlias, replace, String.toList_ofList, replaceAll]
  induction s.toList with
  | nil => rfl
  | cons c r ih =>
    by_cases hc : c = '.'
    · subst hc
      simpa [replaceFrom] using ih
    · simpa [replaceFrom, hc, Ne.symm hc] using ih

theorem defaultImportAlias_eq (s : String) : defaultImportAlias s = join "" (split "." s) := by
  rw [← String.toList_inj, toList_join, map_toList_split, defaultImportAlias, replace,
    String.toList_ofList, replaceAll_eq_intercalate]

theorem defaultImportAlias_join (h : ∀ p ∈ parts, isBindingName p = true) :
    defaultImportAlias (join "." parts) = join "" parts := by
  by_cases hnil : parts = []
  · subst hnil
    rfl
  · have hfree : ∀ p ∈ parts, '.' ∉ p.toList := fun p hp =>
      notMem_of_isBindingName (by decide) (h p hp)
    rw [defaultImportAlias_eq, split_join rfl hnil hfree]

theorem isBindingName_defaultImportAlias (h : isExportsPath s = true) :
    isBindingName (defaultImportAlias s) = true := by
  rw [defaultImportAlias_eq]
  exact isBindingName_join (split_ne_nil "." s) (List.all_eq_true.mp h)

/-- A record of texts that have no problem, in which no alias is given. -/
structure LeavesAlias (record : Fields Value) (name entryPoint exportsPath : String) : Prop where
  name_eq : lookup record "name" = .str name
  name_sound : nameProblem? name = none
  entryPoint_eq : recordField record "entry_point" "entry" = .str entryPoint
  entryPoint_sound : entryPointProblem? entryPoint = none
  exportsPath_eq : recordField record "exports_path" "exports" = .str exportsPath
  exportsPath_sound : exportsPathProblem? exportsPath = none
  unaliased : (recordField record "import_alias" "import_as").isGiven = false

theorem LeavesAlias.exists_chunk (h : LeavesAlias record name entryPoint exportsPath) :
    ∃ c, Chunk.ofRecord record = .ok c ∧ c.toDeclaration =
      ⟨name, entryPoint, exportsPath, defaultImportAlias exportsPath,
        lookup record "factory_preamble", lookup record "factory_postamble"⟩ := by
  have hpath := exportsPathProblem?_eq_none_iff.mp h.exportsPath_sound
  have halias : importAliasProblem? (defaultImportAlias exportsPath) = none :=
    importAliasProblem?_eq_none_iff.mpr (isBindingName_defaultImportAlias hpath)
  refine ⟨⟨_, ?_⟩, Chunk.ofRecord_eq_ok_iff.mpr ?_, rfl⟩
  · simp [Declaration.problem?, h.name_sound, h.entryPoint_sound, h.exportsPath_sound, halias]
  · refine ⟨h.name_eq, h.entryPoint_eq, h.exportsPath_eq, ?_, rfl, rfl⟩
    rw [aliasValue, h.unaliased]
    rfl

/-- A record without an alias gives a chunk whose alias is the exports path without dots, as parts that
are names, however many there are, run together to a name. -/
theorem derived_alias_accepted (h : LeavesAlias record name entryPoint exportsPath) :
    (∃ c, Chunk.ofRecord record = .ok c ∧ c.toDeclaration =
      ⟨name, entryPoint, exportsPath, String.ofList (exportsPath.toList.filter (· ≠ '.')),
        lookup record "factory_preamble", lookup record "factory_postamble"⟩) ∧
    ∀ parts, parts ≠ [] → (∀ p ∈ parts, isBindingName p = true) →
      isBindingName (join "" parts) = true ∧
        defaultImportAlias (join "." parts) = join "" parts := by
  refine ⟨?_, fun parts hne hparts => ⟨isBindingName_join hne hparts,
    defaultImportAlias_join hparts⟩⟩
  rw [← toList_defaultImportAlias, String.ofList_toList]
  exact h.exists_chunk

def foreignRecord : Fields Value :=
  [("name", .str "core"), ("entry", .str "main.js"), ("exports", .str "$a.é2.ж"),
    ("import_as", .str "")]

theorem foreignRecord_leavesAlias : LeavesAlias foreignRecord "core" "main.js" "$a.é2.ж" :=
  ⟨rfl, by decide +kernel, rfl, by decide +kernel, rfl, by decide +kernel, rfl⟩

theorem foreign_alias_accepted : LeavesAlias foreignRecord "core" "main.js" "$a.é2.ж" ∧
    ∃ c, Chunk.ofRecord foreignRecord = .ok c ∧
      c.toDeclaration = ⟨"core", "main.js", "$a.é2.ж", "$aé2ж", .null, .null⟩ := by
  refine ⟨foreignRecord_leavesAlias, ?_⟩
  obtain ⟨⟨c, hc, hfields⟩, -⟩ := derived_alias_accepted foreignRecord_leavesAlias
  refine ⟨c, hc, hfields.trans ?_⟩
  have halias : String.ofList ("$a.é2.ж".toList.filter (· ≠ '.')) = "$aé2ж" := by decide
  rw [halias]
  rfl

end ChunkBuild
