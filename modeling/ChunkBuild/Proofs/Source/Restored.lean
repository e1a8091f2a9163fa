import ChunkBuild.Proofs.Source.Area
import ChunkBuild.Proofs.Text.Occurrence
/-! # Which paths are restored

A path that was flattened has no token in any of its directories or in its base. So a token that does
not separate its segments begins at the end of a directory and overlaps the token behind it, or it lies
in the extension, since the dot in front of that is no part of the token. Main statement: under the
default token a path is restored exactly when none of its directories ends with the token but for the
last letter, the only one where the token overlaps itself, and its extension does not hold the token. -/
namespace ChunkBuild.Source

open ChunkBuild.Text

variable {f : Flattening} {path flat : String} {pat : List Char} {ds : List (List Char)}
  {n : List Char}

theorem extension_eq_nil_or_cons (name : List Char) :
    (splitExtension name).2 = [] ∨ ∃ after, (splitExtension name).2 = '.' :: after := by
  unfold splitExtension
  split
  · exact .inl rfl
  · dsimp only
    split_ifs
    · exact .inl rfl
    · exact .inr ⟨_, rfl⟩

/-- The dot of the extension is a barrier. -/
theorem infix_name_iff (hp : pat ≠ []) (hdot : '.' ∉ pat) (hbase : ¬ pat <:+: (splitExtension n).1) :
    pat <:+: n ↔ pat <:+: (splitExtension n).2 := by
  have hname := splitExtension_append n
  rcases extension_eq_nil_or_cons n with h | ⟨after, h⟩
  · rw [h, List.append_nil] at hname
    rw [h, List.infix_nil, ← hname]
    exact iff_of_false hbase hp
  · have hafter : pat <:+: '.' :: after ↔ pat <:+: after := by
      have hnil := infix_append_cons_iff (u := []) (v := after) hp hdot
      rwa [List.nil_append, List.infix_nil, or_iff_right hp] at hnil
    rw [h] at hname
    rw [h, hafter, ← hname, infix_append_cons_iff hp hdot, or_iff_right hbase]

namespace Flattening

/-- A token in a directory or in the base is refused. -/
theorem absent_of_flatten (hs : f.OneLetter)
    (h : splitOn f.separator.toList path.toList = f.area.toList :: ds ++ [n])
    (hflat : f.flatten path = .ok flat) :
    (∀ d ∈ ds, ¬ f.token.toList <:+: d) ∧ ¬ f.token.toList <:+: (splitExtension n).1 := by
  have hsegments := segments_of_splitOn hs (List.cons_ne_nil _ ds) h
  obtain ⟨parts, hforward, rfl⟩ := except_map_eq_ok.mp hflat
  rw [forward, appliesTo_of_splitOn hs h, Bool.not_true, if_neg Bool.false_ne_true, hsegments,
    take_of_splitOn hs (List.cons_ne_nil _ ds) h] at hforward
  dsimp only at hforward
  split at hforward
  · cases hforward
  · next hfind =>
    rw [List.find?_eq_none, List.map_cons, List.drop_succ_cons, List.drop_zero,
      List.forall_mem_append, List.forall_mem_map, List.forall_mem_singleton] at hfind
    simpa only [contains_iff, String.toList_ofList] using hfind

theorem restore_eq_iff_separates (hs : f.OneLetter) (ha : f.area ≠ "") (ht : f.token ≠ "")
    (h : splitOn f.separator.toList path.toList = f.area.toList :: ds ++ [n])
    (hflat : f.flatten path = .ok flat) :
    f.restore flat = path ↔ Separates f.token.toList (ds ++ [n]) := by
  have hne : f.token.toList ≠ [] := by simpa using ht
  obtain ⟨hsep, hpath⟩ := (splitOn_eq_iff hs.ne_nil).mp h
  have hsegments : Separates f.separator.toList (ds ++ [n]) := by
    rw [hs.separates_iff] at hsep ⊢
    exact ⟨List.concat_ne_nil n ds, fun p hp => hsep.2 p (List.mem_cons_of_mem _ hp)⟩
  rw [List.cons_append, intercalate_cons hsegments.ne_nil] at hpath
  rw [← replaceAll_intercalate_iff hne hsegments, ← String.toList_inj, ← hpath,
    restore_of_area (flatten_of_splitOn hs ha h hflat), List.append_cancel_left_eq]

/-- Any token without a dot: no directory ends where the token overlaps itself, and the extension does
not hold it. -/
theorem restore_eq_iff_overlaps (hs : f.OneLetter) (ha : f.area ≠ "") (ht : f.token ≠ "")
    (hdot : '.' ∉ f.token.toList)
    (h : splitOn f.separator.toList path.toList = f.area.toList :: ds ++ [n])
    (hflat : f.flatten path = .ok flat) :
    f.restore flat = path ↔ (∀ d ∈ ds, ∀ t ∈ overlaps f.token.toList, ¬ t <:+ d) ∧
      ¬ f.token.toList <:+: (splitExtension n).2 := by
  have hne : f.token.toList ≠ [] := by simpa using ht
  obtain ⟨hdirectories, hbase⟩ := absent_of_flatten hs h hflat
  rw [restore_eq_iff_separates hs ha ht h hflat, separates_concat_iff, infix_name_iff hne hdot hbase]
  refine and_congr_left' (forall₂_congr fun d hd => ?_)
  rw [clear_iff hne, and_iff_right (hdirectories d hd)]

theorem default_restored_iff (hp : startsWith "core/" path = true)
    (hflat : flatten {} path = .ok flat) :
    restore {} flat = path ↔
      (∀ d ∈ (segments {} (take {} path).directory).drop 1, ¬ "-slash".toList <:+ d.toList) ∧
      contains "-slash-" (take {} path).extension = false := by
  have hs : OneLetter {} := .of_slash rfl
  obtain ⟨ds, n, h⟩ := splitOn_of_startsWith hs rfl hp
  have hsegments := segments_of_splitOn hs (List.cons_ne_nil _ ds) h
  have hoverlaps : overlaps "-slash-".toList = ["-slash".toList] := by decide
  rw [restore_eq_iff_overlaps hs (by decide) (by decide) (by decide) h hflat, hoverlaps, hsegments,
    take_of_splitOn hs (List.cons_ne_nil _ ds) h, contains_eq_false_iff]
  simp only [List.map_cons, List.drop_succ_cons, List.drop_zero, List.forall_mem_map,
    List.forall_mem_singleton, String.toList_ofList]

/-- One path is restored; in the others the token begins in a directory or lies in the extension. -/
theorem restored_or_not :
    (startsWith "core/" "core//x-slashed/y.js" = true ∧
      flatten {} "core//x-slashed/y.js" = .ok "core/-slash-x-slashed-slash-y.js" ∧
      restore {} "core/-slash-x-slashed-slash-y.js" = "core//x-slashed/y.js") ∧
    (startsWith "core/" "core/x-slash/y.js" = true ∧
      flatten {} "core/x-slash/y.js" = .ok "core/x-slash-slash-y.js" ∧
      restore {} "core/x-slash-slash-y.js" ≠ "core/x-slash/y.js") ∧
    startsWith "core/" "core/b.x-slash-y" = true ∧
      flatten {} "core/b.x-slash-y" = .ok "core/b.x-slash-y" ∧
      restore {} "core/b.x-slash-y" ≠ "core/b.x-slash-y" := by
  have hkept : flatten {} "core//x-slashed/y.js" = .ok "core/-slash-x-slashed-slash-y.js" := rfl
  have hcrossing : flatten {} "core/x-slash/y.js" = .ok "core/x-slash-slash-y.js" := rfl
  have hextension : flatten {} "core/b.x-slash-y" = .ok "core/b.x-slash-y" := rfl
  refine ⟨⟨rfl, hkept, ?_⟩, ⟨rfl, hcrossing, ?_⟩, rfl, hextension, ?_⟩
  · rw [default_restored_iff rfl hkept]
    decide
  · rw [Ne, default_restored_iff rfl hcrossing]
    decide
  · rw [Ne, default_restored_iff rfl hextension]
    decide

end Flattening

end ChunkBuild.Source
