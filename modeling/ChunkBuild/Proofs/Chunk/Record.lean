import ChunkBuild.Proofs.Chunk.Registry
import ChunkBuild.Proofs.Fields
import ChunkBuild.Proofs.Results
/-! # Records of chunks

A record gives a chunk whose fields are the texts that it holds under one of their spellings, its alias
the given one or the exports path without dots. Main statements: this relation between records and chunks
is all that reading a record checks, and chunks and registries are read back from what is written of
them. -/
namespace ChunkBuild

open ChunkBuild.Text ChunkBuild.Json

variable {record : Fields Value} {records : List (Fields Value)} {c : Chunk} {chunks : List Chunk}
  {r : Registry} {v w : Value}

def IsTextual (v : Value) : Prop := v = .null ∨ ∃ s, v = .str s

/-! ## Checking -/

theorem checkedText_eq_ok {problem? : String → Option DeclarationProblem}
    {absent : DeclarationProblem} {x : { s : String // problem? s = none }} :
    checkedText problem? absent v = .ok x ↔ v = .str x.1 := by
  cases v with
  | str s =>
    rw [checkedText]
    split
    · next h =>
      rw [Except.ok.injEq, Value.str.injEq, Subtype.ext_iff]
    · next p h =>
      refine iff_of_false (fun he => nomatch he) ?_
      rw [Value.str.injEq]
      rintro rfl
      rw [x.2] at h
      cases h
  | _ => exact iff_of_false (fun h => nomatch h) fun h => nomatch h

theorem Chunk.ofValues_eq_ok {name entry exported as preamble postamble : Value} :
    Chunk.ofValues name entry exported as preamble postamble = .ok c ↔
      name = .str c.name ∧ entry = .str c.entryPoint ∧ exported = .str c.exportsPath ∧
        as = .str c.importAlias ∧ preamble = c.preamble ∧ postamble = c.postamble := by
  constructor
  · intro h
    obtain ⟨⟨_, _⟩, hname, h⟩ := except_bind_eq_ok.mp h
    obtain ⟨⟨_, _⟩, hentry, h⟩ := except_bind_eq_ok.mp h
    obtain ⟨⟨_, _⟩, hexported, h⟩ := except_bind_eq_ok.mp h
    obtain ⟨⟨_, _⟩, has, h⟩ := except_bind_eq_ok.mp h
    cases h
    exact ⟨checkedText_eq_ok.mp hname, checkedText_eq_ok.mp hentry, checkedText_eq_ok.mp hexported,
      checkedText_eq_ok.mp has, rfl, rfl⟩
  · obtain ⟨hname, hentry, hexported, has⟩ := c.fields_sound
    rintro ⟨rfl, rfl, rfl, rfl, rfl, rfl⟩
    refine except_bind_eq_ok.mpr ⟨⟨c.name, hname⟩, checkedText_eq_ok.mpr rfl, ?_⟩
    refine except_bind_eq_ok.mpr ⟨⟨c.entryPoint, hentry⟩, checkedText_eq_ok.mpr rfl, ?_⟩
    refine except_bind_eq_ok.mpr ⟨⟨c.exportsPath, hexported⟩, checkedText_eq_ok.mpr rfl, ?_⟩
    exact except_bind_eq_ok.mpr ⟨⟨c.importAlias, has⟩, checkedText_eq_ok.mpr rfl, rfl⟩

theorem requiredField_eq_ok {field label : String} :
    requiredField field label v = .ok w ↔ v.isGiven = true ∧ v = w := by
  unfold requiredField
  split_ifs with h
  · rw [Except.ok.injEq, and_iff_right h]
  · exact iff_of_false (fun he => nomatch he) fun he => h he.1

theorem isGiven_str {s : String} : (Value.str s).isGiven = true ↔ s ≠ "" := by
  rw [Value.isGiven, Bool.not_eq_true', String.isEmpty_eq_false_iff]

/-- No field of a chunk is empty. -/
theorem Chunk.fields_given (c : Chunk) :
    (Value.str c.name).isGiven = true ∧ (Value.str c.entryPoint).isGiven = true ∧
      (Value.str c.exportsPath).isGiven = true ∧ (Value.str c.importAlias).isGiven = true := by
  obtain ⟨hname, hentry, hexports, halias⟩ := c.fields_sound
  have hempty {problem? : String → Option DeclarationProblem} {s : String}
      (hs : problem? s = none) (hno : problem? "" ≠ none) : (Value.str s).isGiven = true := by
    rw [isGiven_str]
    rintro rfl
    exact hno hs
  exact ⟨hempty hname (by decide), hempty hentry (by decide), hempty hexports (by decide),
    hempty halias (by decide)⟩

/-! ## What a record declares -/

structure Declares (record : Fields Value) (c : Chunk) : Prop where
  name : lookup record "name" = .str c.name
  entryPoint : recordField record "entry_point" "entry" = .str c.entryPoint
  exportsPath : recordField record "exports_path" "exports" = .str c.exportsPath
  importAlias : aliasValue (.str c.exportsPath) (recordField record "import_alias" "import_as") =
    .ok (.str c.importAlias)
  preamble : lookup record "factory_preamble" = c.preamble
  postamble : lookup record "factory_postamble" = c.postamble

theorem Chunk.ofRecord_eq_ok_iff : Chunk.ofRecord record = .ok c ↔ Declares record c := by
  constructor
  · intro h
    obtain ⟨name, hname, h⟩ := except_bind_eq_ok.mp h
    obtain ⟨entry, hentry, h⟩ := except_bind_eq_ok.mp h
    obtain ⟨exported, hexported, h⟩ := except_bind_eq_ok.mp h
    obtain ⟨as, has, h⟩ := except_bind_eq_ok.mp h
    obtain ⟨rfl, rfl, rfl, rfl, hpreamble, hpostamble⟩ := Chunk.ofValues_eq_ok.mp h
    exact ⟨(requiredField_eq_ok.mp hname).2, (requiredField_eq_ok.mp hentry).2,
      (requiredField_eq_ok.mp hexported).2, has, hpreamble, hpostamble⟩
  · intro h
    obtain ⟨hname, hentry, hexports, -⟩ := c.fields_given
    refine except_bind_eq_ok.mpr ⟨.str c.name, ?_, ?_⟩
    · rw [h.name]
      exact requiredField_eq_ok.mpr ⟨hname, rfl⟩
    refine except_bind_eq_ok.mpr ⟨.str c.entryPoint, ?_, ?_⟩
    · rw [h.entryPoint]
      exact requiredField_eq_ok.mpr ⟨hentry, rfl⟩
    refine except_bind_eq_ok.mpr ⟨.str c.exportsPath, ?_, ?_⟩
    · rw [h.exportsPath]
      exact requiredField_eq_ok.mpr ⟨hexports, rfl⟩
    refine except_bind_eq_ok.mpr ⟨.str c.importAlias, h.importAlias, ?_⟩
    exact Chunk.ofValues_eq_ok.mpr ⟨rfl, rfl, rfl, rfl, h.preamble, h.postamble⟩

def textOf (v : Value) : String := v.str?.getD ""

def nameOf (record : Fields Value) : String := textOf (lookup record "name")

/-- The alias that a record gives, else its exports path without dots. -/
def aliasOf (record : Fields Value) : String :=
  let given := textOf (recordField record "import_alias" "import_as")
  if given ≠ "" then given
  else defaultImportAlias (textOf (recordField record "exports_path" "exports"))

namespace Declares

theorem nameOf_eq (h : Declares record c) : nameOf record = c.name := by
  rw [nameOf, h.name]
  rfl

theorem aliasOf_eq (h : Declares record c) : aliasOf record = c.importAlias := by
  have halias := h.importAlias
  rw [aliasOf, h.exportsPath]
  generalize recordField record "import_alias" "import_as" = given at halias ⊢
  unfold aliasValue at halias
  split at halias
  · next hgiven =>
    rw [Except.ok.inj halias] at hgiven ⊢
    exact if_pos (isGiven_str.mp hgiven)
  · next hnot =>
    have hempty : textOf given = "" := by
      cases given with
      | str s =>
        rw [isGiven_str, not_not] at hnot
        exact hnot
      | _ => rfl
    rw [hempty]
    exact Value.str.inj (Except.ok.inj halias)

end Declares

/-! ## The record of a chunk -/

theorem get?_declaredField_self (key : String) (v : Value) :
    ((declaredField key v).get? key).getD .null = v := by
  cases v with
  | null => rfl
  | _ => simp [declaredField, Fields.get?]

theorem get?_declaredField_of_ne {key name : String} (h : key ≠ name) (v : Value) :
    (declaredField key v).get? name = none := by
  cases v with
  | null => rfl
  | _ => simp [declaredField, Fields.get?, h]

/-- The fields of a chunk's record that are no overrides. -/
theorem Chunk.get?_toRecord (c : Chunk) {key : String} (hpreamble : "factory_preamble" ≠ key)
    (hpostamble : "factory_postamble" ≠ key) : c.toRecord.get? key =
      Fields.get? [("name", .str c.name), ("entry", .str c.entryPoint),
        ("exports", .str c.exportsPath), ("import_as", .str c.importAlias)] key := by
  rw [Chunk.toRecord, Fields.get?_append, Fields.get?_append,
    get?_declaredField_of_ne hpreamble, get?_declaredField_of_ne hpostamble, Option.or_none,
    Option.or_none]

/-- What is written of a chunk declares it, whatever its overrides are. -/
theorem declares_toRecord (c : Chunk) : Declares c.toRecord c := by
  obtain ⟨-, -, -, hgiven⟩ := c.fields_given
  constructor
  · rw [lookup, c.get?_toRecord (by decide) (by decide)]
    rfl
  · rw [recordField, lookup, c.get?_toRecord (by decide) (by decide),
      c.get?_toRecord (by decide) (by decide)]
    rfl
  · rw [recordField, lookup, c.get?_toRecord (by decide) (by decide),
      c.get?_toRecord (by decide) (by decide)]
    rfl
  · rw [recordField, lookup, c.get?_toRecord (by decide) (by decide),
      c.get?_toRecord (by decide) (by decide)]
    exact if_pos hgiven
  · have hother : "factory_postamble" ≠ "factory_preamble" := by decide
    rw [lookup, Chunk.toRecord, Fields.get?_append, Fields.get?_append,
      get?_declaredField_of_ne hother, Option.or_none]
    exact get?_declaredField_self "factory_preamble" c.preamble
  · have hother : "factory_preamble" ≠ "factory_postamble" := by decide
    rw [lookup, Chunk.toRecord, Fields.get?_append, Fields.get?_append,
      get?_declaredField_of_ne hother]
    exact get?_declaredField_self "factory_postamble" c.postamble

/-- A chunk is read back from its record. -/
theorem Chunk.ofRecord_toRecord (c : Chunk) : Chunk.ofRecord c.toRecord = .ok c :=
  Chunk.ofRecord_eq_ok_iff.mpr (declares_toRecord c)

/-! ## Records of registries -/

namespace Registry

theorem ofChunks_eq_ok_iff : ofChunks chunks = .ok r ↔ r.chunks = chunks := by
  constructor
  · intro h
    unfold ofChunks at h
    split at h
    · cases h
      rfl
    · cases h
  · rintro rfl
    exact r.ofChunks_chunks

theorem ofRecords_eq_bind : ofRecords records = records.mapM Chunk.ofRecord >>= fun chunks =>
    (ofChunks chunks).mapError RegistryProblem.failure := by
  rw [ofRecords, ofValues, List.mapM_map]
  rfl

theorem ofRecords_eq_ok_iff : ofRecords records = .ok r ↔
    List.Forall₂ (fun record c => Chunk.ofRecord record = .ok c) records r.chunks := by
  rw [ofRecords_eq_bind, except_bind_eq_ok, ← mapM_eq_ok_iff]
  constructor
  · rintro ⟨chunks, hchunks, h⟩
    rwa [ofChunks_eq_ok_iff.mp (except_mapError_eq_ok.mp h)]
  · exact fun h => ⟨r.chunks, h, except_mapError_eq_ok.mpr r.ofChunks_chunks⟩

/-- A registry is read back from its records. -/
theorem ofRecords_toRecords (r : Registry) : ofRecords r.toRecords = .ok r := by
  rw [ofRecords_eq_ok_iff, toRecords, List.forall₂_map_left_iff, List.forall₂_same]
  exact fun c _ => Chunk.ofRecord_toRecord c

end Registry

end ChunkBuild
