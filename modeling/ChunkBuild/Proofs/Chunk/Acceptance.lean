import ChunkBuild.Proofs.Chunk.Record
import Mathlib.Data.List.Nodup
/-! # Which records make a registry

All records are read before any two chunks are compared, and chunks are compared in order. Main statement:
records of texts make a registry exactly when there are some, each of them gives a chunk and neither names
nor aliases repeat; otherwise the first invalid record, or else the first chunk that repeats an earlier
one, decides the failure. -/
namespace ChunkBuild

open ChunkBuild.Text ChunkBuild.Json

variable {records : List (Fields Value)} {record : Fields Value} {seen chunks : List Chunk}
  {c : Chunk} {r : Registry} {p q : RegistryProblem} {v : Value} {e : Failure}

/-! ## Records of texts -/

/-- All fields of a record are texts, or there is nothing in them. -/
def IsTextRecord (record : Fields Value) : Prop := ∀ f ∈ record, IsTextual f.2

def IsInvalid (e : Failure) : Prop := ∃ field value reason, e = .validation field value reason

theorem IsTextRecord.lookup (h : IsTextRecord record) (key : String) :
    IsTextual (lookup record key) := by
  rw [Json.lookup]
  cases hf : record.get? key with
  | none => exact .inl rfl
  | some v => exact h (key, v) (Fields.mem_of_get? hf)

theorem IsTextRecord.recordField (h : IsTextRecord record) (spelling other : String) :
    IsTextual (recordField record spelling other) := by
  rw [ChunkBuild.recordField]
  cases hf : record.get? spelling with
  | none => exact h.lookup other
  | some v => exact h (spelling, v) (Fields.mem_of_get? hf)

theorem failsOnly_requiredField (field label : String) (v : Value) :
    FailsOnly IsInvalid (requiredField field label v) := by
  unfold requiredField
  split_ifs
  · exact .ok v
  · exact .error ⟨_, _, _, rfl⟩

theorem failsOnly_checkedText {problem? : String → Option DeclarationProblem}
    {absent : DeclarationProblem} (h : IsTextual v) :
    FailsOnly IsInvalid (checkedText problem? absent v) := by
  have hfailure (v : Value) (p : DeclarationProblem) : IsInvalid (p.failure v) := by
    cases p <;> exact ⟨_, _, _, rfl⟩
  rcases h with rfl | ⟨s, rfl⟩
  · exact .error (hfailure .null absent)
  · rw [checkedText]
    split
    · exact .ok _
    · exact .error (hfailure _ _)

/-- An alias can be derived from every exports path that counts as given. -/
theorem exists_aliasValue {exported : Value} (hexported : IsTextual exported)
    (hgiven : exported.isGiven = true) (h : IsTextual v) :
    ∃ w, aliasValue exported v = .ok w ∧ IsTextual w := by
  unfold aliasValue
  by_cases hv : v.isGiven = true
  · exact ⟨v, if_pos hv, h⟩
  · obtain rfl | ⟨s, rfl⟩ := hexported
    · cases hgiven
    · exact ⟨_, if_neg hv, .inr ⟨_, rfl⟩⟩

theorem failsOnly_ofRecord (h : IsTextRecord record) :
    FailsOnly IsInvalid (Chunk.ofRecord record) := by
  refine (failsOnly_requiredField _ _ _).bind fun name hname => ?_
  refine (failsOnly_requiredField _ _ _).bind fun entry hentry => ?_
  refine (failsOnly_requiredField _ _ _).bind fun exported hexported => ?_
  obtain ⟨-, rfl⟩ := requiredField_eq_ok.mp hname
  obtain ⟨-, rfl⟩ := requiredField_eq_ok.mp hentry
  obtain ⟨hgiven, rfl⟩ := requiredField_eq_ok.mp hexported
  have hpath : IsTextual (recordField record "exports_path" "exports") := h.recordField _ _
  obtain ⟨as, has, htext⟩ := exists_aliasValue hpath hgiven (h.recordField "import_alias" "import_as")
  rw [has]
  refine (failsOnly_checkedText (h.lookup _)).bind fun _ _ => ?_
  refine (failsOnly_checkedText (h.recordField _ _)).bind fun _ _ => ?_
  refine (failsOnly_checkedText hpath).bind fun _ _ => ?_
  exact (failsOnly_checkedText htext).bind fun _ _ => .ok _

/-! ## Conflicts -/

theorem nodup_names (h : chunks.Pairwise Distinct) : (chunks.map (·.name)).Nodup :=
  List.pairwise_map.mpr (h.imp And.left)

theorem nodup_aliases (h : chunks.Pairwise Distinct) : (chunks.map (·.importAlias)).Nodup :=
  List.pairwise_map.mpr (h.imp And.right)

theorem Clash.unique (hseen : seen.Pairwise Distinct) (hp : Clash seen c p) (hq : Clash seen c q) :
    p = q := by
  cases hp with
  | @name d i hd hname =>
    cases hq with
    | @name e j he hother =>
      have hi : (seen.map (·.name))[i]? = some c.name := by
        rw [List.getElem?_map, hd, Option.map_some, hname]
      have hj : (seen.map (·.name))[j]? = some c.name := by
        rw [List.getElem?_map, he, Option.map_some, hother]
      have hlt : i < (seen.map (·.name)).length := (List.getElem?_eq_some_iff.mp hi).1
      rw [(List.getElem?_inj hlt (nodup_names hseen)).mp (hi.trans hj.symm)]
    | importAlias hnames _ _ => exact absurd hname (hnames d (List.mem_of_getElem? hd))
  | @importAlias d hnames hd halias =>
    cases hq with
    | @name e j he hother => exact absurd hother (hnames e (List.mem_of_getElem? he))
    | @importAlias e _ he hother =>
      rw [List.inj_on_of_nodup_map (nodup_aliases hseen) hd he (halias.trans hother.symm)]

/-- The conflict that is reported is that of the first chunk that has one. -/
theorem conflictFrom_eq_some_iff (hseen : seen.Pairwise Distinct) :
    conflictFrom seen chunks = some p ↔ ∃ before c after, chunks = before ++ c :: after ∧
      (seen ++ before).Pairwise Distinct ∧ Clash (seen ++ before) c p := by
  induction chunks generalizing seen with
  | nil => exact iff_of_false (fun h => nomatch h) (by simp)
  | cons c rest ih =>
    obtain ⟨q, hq, heq⟩ | ⟨hc, heq⟩ := conflictFrom_cons seen c rest
    · rw [heq, Option.some.injEq]
      constructor
      · rintro rfl
        exact ⟨[], c, rest, rfl, by rwa [List.append_nil], by rwa [List.append_nil]⟩
      · rintro ⟨before, d, after, hsplit, hpair, hd⟩
        cases before with
        | nil =>
          obtain ⟨rfl, -⟩ := List.cons.inj hsplit
          rw [List.append_nil] at hd
          exact hq.unique hseen hd
        | cons b before =>
          obtain ⟨rfl, -⟩ := List.cons.inj hsplit
          refine absurd (fun s hs => ?_) hq.not_distinct
          exact (List.pairwise_append.mp hpair).2.2 s hs c List.mem_cons_self
    · have hnext : (seen ++ [c]).Pairwise Distinct :=
        List.pairwise_append.mpr ⟨hseen, List.pairwise_singleton _ _, by simpa using hc⟩
      rw [heq, ih hnext]
      constructor
      · rintro ⟨before, d, after, rfl, hpair, hd⟩
        rw [List.append_assoc] at hpair hd
        exact ⟨c :: before, d, after, rfl, hpair, hd⟩
      · rintro ⟨before, d, after, hsplit, hpair, hd⟩
        cases before with
        | nil =>
          obtain ⟨rfl, -⟩ := List.cons.inj hsplit
          rw [List.append_nil] at hd
          exact absurd hc hd.not_distinct
        | cons b before =>
          obtain ⟨rfl, rfl⟩ := List.cons.inj hsplit
          exact ⟨before, d, after, rfl, by rwa [List.append_assoc], by rwa [List.append_assoc]⟩

theorem registryProblem?_eq_some_iff : registryProblem? chunks = some p ↔
    chunks = [] ∧ p = .empty ∨ ∃ before c after, chunks = before ++ c :: after ∧
      before.Pairwise Distinct ∧ Clash before c p := by
  cases chunks with
  | nil =>
    have hempty : registryProblem? [] = some .empty := rfl
    simp [hempty, eq_comm]
  | cons c rest =>
    rw [registryProblem?, if_neg (by simp), conflictFrom_eq_some_iff .nil]
    simp

/-! ## Reading all records -/

namespace Registry

theorem ofChunks_eq_error_iff : ofChunks chunks = .error p ↔ registryProblem? chunks = some p := by
  unfold ofChunks
  split
  · next h => simp [h]
  · next q h => rw [h, Except.error.injEq, Option.some.injEq]

/-- A chunk is found by its name. -/
theorem get?_name (hc : c ∈ r.chunks) : r.get? c.name = some c := by
  unfold get?
  cases hd : r.chunks.find? (·.name = c.name) with
  | none => exact absurd (decide_eq_true rfl) (List.find?_eq_none.mp hd c hc)
  | some d =>
    have hname : d.name = c.name := by simpa using List.find?_some hd
    rw [List.inj_on_of_nodup_map (nodup_names r.distinct) (List.mem_of_find?_eq_some hd) hc hname]

end Registry

inductive Refused (records : List (Fields Value)) : Failure → Prop where
  | invalid {before after : List (Fields Value)} {record : Fields Value} {field reason : String}
    {value : Value} (hsplit : records = before ++ record :: after)
    (hbefore : ∀ other ∈ before, ∃ c, Chunk.ofRecord other = .ok c)
    (hrecord : Chunk.ofRecord record = .error (.validation field value reason)) :
    Refused records (.validation field value reason)
  | empty (hnone : records = []) : Refused records RegistryProblem.empty.failure
  | conflict {before after : List Chunk} {c : Chunk} {p : RegistryProblem}
    (hchunks : List.Forall₂ (fun record c => Chunk.ofRecord record = .ok c) records
      (before ++ c :: after))
    (hbefore : before.Pairwise Distinct) (hclash : Clash before c p) : Refused records p.failure

/-- The names of the records, and their aliases, are those of the chunks. -/
theorem pairwise_distinct_iff
    (h : List.Forall₂ (fun record c => Chunk.ofRecord record = .ok c) records chunks) :
    chunks.Pairwise Distinct ↔ (records.map nameOf).Nodup ∧ (records.map aliasOf).Nodup := by
  have hpair : records.Pairwise (fun a b => nameOf a ≠ nameOf b ∧ aliasOf a ≠ aliasOf b) ↔
      chunks.Pairwise Distinct := by
    refine pairwise_iff_of_forall₂ h fun {a c b d} ha hb => ?_
    have hac := Chunk.ofRecord_eq_ok_iff.mp ha
    have hbd := Chunk.ofRecord_eq_ok_iff.mp hb
    rw [hac.nameOf_eq, hbd.nameOf_eq, hac.aliasOf_eq, hbd.aliasOf_eq, Distinct]
  rw [← hpair, List.pairwise_and_iff]
  exact and_congr List.pairwise_map.symm List.pairwise_map.symm

theorem exists_registry_iff : (∃ r, Registry.ofRecords records = .ok r) ↔
    records ≠ [] ∧ (∀ record ∈ records, ∃ c, Chunk.ofRecord record = .ok c) ∧
      (records.map nameOf).Nodup ∧ (records.map aliasOf).Nodup := by
  constructor
  · rintro ⟨r, hr⟩
    have hchunks := Registry.ofRecords_eq_ok_iff.mp hr
    refine ⟨?_, exists_forall₂_iff.mp ⟨_, hchunks⟩, (pairwise_distinct_iff hchunks).mp r.distinct⟩
    rintro rfl
    exact r.chunks_ne_nil (List.forall₂_nil_left_iff.mp hchunks)
  · rintro ⟨hne, hvalid, hdistinct⟩
    obtain ⟨chunks, hchunks⟩ := exists_forall₂_iff.mpr hvalid
    have hsound : registryProblem? chunks = none := by
      rw [registryProblem?_eq_none_iff]
      refine ⟨?_, (pairwise_distinct_iff hchunks).mpr hdistinct⟩
      rintro rfl
      exact hne (List.forall₂_nil_right_iff.mp hchunks)
    exact ⟨⟨chunks, hsound⟩, Registry.ofRecords_eq_ok_iff.mpr hchunks⟩

theorem ofRecords_eq_error_iff (h : ∀ record ∈ records, IsTextRecord record) :
    Registry.ofRecords records = .error e ↔ Refused records e := by
  rw [Registry.ofRecords_eq_bind, except_bind_eq_error, mapM_eq_error_iff]
  constructor
  · rintro (⟨before, record, after, hsplit, hbefore, hrecord⟩ | ⟨chunks, hchunks, hproblem⟩)
    · have hmem : record ∈ records := hsplit ▸ List.mem_append_right before List.mem_cons_self
      obtain ⟨field, value, reason, rfl⟩ := failsOnly_ofRecord (h record hmem) e hrecord
      exact .invalid hsplit hbefore hrecord
    · obtain ⟨p, hp, rfl⟩ := except_mapError_eq_error.mp hproblem
      rcases registryProblem?_eq_some_iff.mp (Registry.ofChunks_eq_error_iff.mp hp) with
        ⟨rfl, rfl⟩ | ⟨before, c, after, rfl, hbefore, hclash⟩
      · exact .empty (List.forall₂_nil_right_iff.mp (mapM_eq_ok_iff.mp hchunks))
      · exact .conflict (mapM_eq_ok_iff.mp hchunks) hbefore hclash
  · intro hrefused
    cases hrefused with
    | invalid hsplit hbefore hrecord => exact .inl ⟨_, _, _, hsplit, hbefore, hrecord⟩
    | empty hnone =>
      refine .inr ⟨[], mapM_eq_ok_iff.mpr (hnone ▸ .nil), except_mapError_eq_error.mpr ⟨_, ?_, rfl⟩⟩
      exact Registry.ofChunks_eq_error_iff.mpr rfl
    | conflict hchunks hbefore hclash =>
      refine .inr ⟨_, mapM_eq_ok_iff.mpr hchunks, except_mapError_eq_error.mpr ⟨_, ?_, rfl⟩⟩
      rw [Registry.ofChunks_eq_error_iff, registryProblem?_eq_some_iff]
      exact .inr ⟨_, _, _, rfl, hbefore, hclash⟩

/-- Records of texts make a registry, which keeps their order and finds each chunk by its name, exactly
when there are some, all are valid and neither names nor aliases repeat. -/
theorem records_accepted_or_refused (h : ∀ record ∈ records, IsTextRecord record) :
    ((∃ r, Registry.ofRecords records = .ok r) ↔
      records ≠ [] ∧ (∀ record ∈ records, ∃ c, Chunk.ofRecord record = .ok c) ∧
        (records.map nameOf).Nodup ∧ (records.map aliasOf).Nodup) ∧
    (∀ r, Registry.ofRecords records = .ok r → List.Forall₂ (fun record c =>
      Chunk.ofRecord record = .ok c ∧ r.get? (nameOf record) = some c) records r.chunks) ∧
    ∀ e, Registry.ofRecords records = .error e ↔ Refused records e := by
  refine ⟨exists_registry_iff, fun r hr => ?_, fun e => ofRecords_eq_error_iff h⟩
  have hchunks := Registry.ofRecords_eq_ok_iff.mp hr
  have hmem : List.Forall₂ (fun c record => c ∈ r.chunks ∧ Chunk.ofRecord record = .ok c)
      r.chunks records :=
    (List.forall₂_and_left _ _).mpr ⟨fun _ hc => hc, List.Forall₂.flip hchunks⟩
  refine List.Forall₂.flip (hmem.imp fun c record hc => ⟨hc.2, ?_⟩)
  rw [(Chunk.ofRecord_eq_ok_iff.mp hc.2).nameOf_eq]
  exact Registry.get?_name hc.1

/-! ## Two paths with one alias -/

def unaliased (name exported : String) : Fields Value :=
  [("name", .str name), ("entry", .str "main.js"), ("exports", .str exported)]

theorem isTextRecord_unaliased (name exported : String) : IsTextRecord (unaliased name exported) := by
  intro f hf
  simp only [unaliased, List.mem_cons, List.not_mem_nil, or_false] at hf
  rcases hf with rfl | rfl | rfl <;> exact .inr ⟨_, rfl⟩

def dotted : Chunk := ⟨⟨"base", "main.js", "App.core", "Appcore", .null, .null⟩, by decide +kernel⟩

def undotted : Chunk := ⟨⟨"top", "main.js", "Appcore", "Appcore", .null, .null⟩, by decide +kernel⟩

theorem dotless_aliases_refused :
    (∀ record ∈ [unaliased "base" "App.core", unaliased "top" "Appcore"], IsTextRecord record) ∧
      Registry.ofRecords [unaliased "base" "App.core", unaliased "top" "Appcore"] =
        .error (RegistryProblem.failure (.sharedAlias "Appcore" "base" "top")) := by
  have htexts : ∀ record ∈ [unaliased "base" "App.core", unaliased "top" "Appcore"],
      IsTextRecord record := by
    simp [isTextRecord_unaliased]
  refine ⟨htexts, ((records_accepted_or_refused htexts).2.2 _).mpr ?_⟩
  have hdotted : Chunk.ofRecord (unaliased "base" "App.core") = .ok dotted :=
    Chunk.ofRecord_eq_ok_iff.mpr ⟨rfl, rfl, rfl, rfl, rfl, rfl⟩
  have hundotted : Chunk.ofRecord (unaliased "top" "Appcore") = .ok undotted :=
    Chunk.ofRecord_eq_ok_iff.mpr ⟨rfl, rfl, rfl, rfl, rfl, rfl⟩
  refine @Refused.conflict _ [dotted] [] undotted _ (.cons hdotted (.cons hundotted .nil))
    (List.pairwise_singleton _ _) ?_
  refine .importAlias ?_ List.mem_cons_self rfl
  simp [dotted, undotted]

end ChunkBuild
