import ChunkBuild.Proofs.Fields
import ChunkBuild.Proofs.Source.Area
import ChunkBuild.Proofs.Text.Letters
import ChunkBuild.Source.Map
/-! # Paths that are restored already

The separator is one letter that the token does not hold, so the token cannot come about across it:
where every token was replaced there is none. A letter may be a pair of characters, and the token then
has to be a text that writes code points, as every text is that was read: otherwise it could begin or end
inside of a pair. Main statement: restoring what was restored changes nothing, neither a path nor the
sources of a map. -/
namespace ChunkBuild.Source

open ChunkBuild.Text ChunkBuild.Json

variable {f : Flattening} {change : String → Except Failure String} {map changed : Fields Value}

/-! ## Paths -/

/-- The area stays in front, and behind it no token is left. -/
theorem Flattening.restore_restore (hs : f.OneLetter) (ht : f.token ≠ "")
    (hw : IsWritten f.token) (hfree : contains f.separator f.token = false) (path : String) :
    f.restore (f.restore path) = f.restore path := by
  by_cases hp : startsWith (f.area ++ f.separator) path = true
  · obtain ⟨r, hr⟩ := startsWith_iff.mp hp
    rw [String.toList_append] at hr
    have honce := restore_of_area hr.symm
    have habsent := hw.absent_replaceAll ht hs (contains_eq_false_iff.mp hfree) r
    rw [← String.toList_inj, restore_of_area honce, honce, replaceAll_of_absent habsent]
  · rw [Bool.not_eq_true] at hp
    rw [restore_of_not_startsWith hp, restore_of_not_startsWith hp]

/-! ## Source maps -/

theorem changeSource_changed (hc : ∀ path s, change path = .ok s → change s = .ok s) {v w : Value}
    (hv : changeSource change v = .ok w) : changeSource change w = .ok w := by
  cases v with
  | str path =>
    obtain ⟨s, hs, rfl⟩ := except_map_eq_ok.mp hv
    rw [changeSource, hc path s hs]
    rfl
  | _ =>
    cases hv
    rfl

/-- A change of paths that leaves its results alone leaves a map with changed sources alone. -/
theorem changeSources_changed (hc : ∀ path s, change path = .ok s → change s = .ok s)
    (hm : changeSources change map = .ok changed) : changeSources change changed = .ok changed := by
  cases hsources : map.get? "sources" with
  | none =>
    rw [changeSources, hsources] at hm
    cases hm
    rw [changeSources, hsources]
  | some v =>
    cases v with
    | arr items =>
      rw [changeSources, hsources] at hm
      obtain ⟨others, hothers, rfl⟩ := except_map_eq_ok.mp hm
      have hagain : others.mapM (changeSource change) = .ok others := by
        rw [mapM_eq_ok_iff, List.forall₂_same]
        intro w hw
        obtain ⟨v, -, hv⟩ := exists_left_of_forall₂ (mapM_eq_ok_iff.mp hothers) hw
        exact changeSource_changed hc hv
      rw [changeSources, Fields.get?_put_self]
      dsimp only
      rw [hagain]
      exact congrArg Except.ok (Fields.put_put map "sources" _ _)
    | _ =>
      rw [changeSources, hsources] at hm
      cases hm
      rw [changeSources, hsources]

/-- A change that never fails changes every map. -/
theorem exists_changeSources (hc : ∀ path, ∃ s, change path = .ok s) (map : Fields Value) :
    ∃ changed, changeSources change map = .ok changed := by
  unfold changeSources
  split
  · next items _ =>
    have hitems : ∃ others, items.mapM (changeSource change) = .ok others := by
      simp only [mapM_eq_ok_iff]
      refine exists_forall₂_iff.mpr fun v _ => ?_
      cases v with
      | str path =>
        obtain ⟨s, hs⟩ := hc path
        exact ⟨.str s, except_map_eq_ok.mpr ⟨s, hs, rfl⟩⟩
      | _ => exact ⟨_, rfl⟩
    obtain ⟨others, hothers⟩ := hitems
    exact ⟨_, except_map_eq_ok.mpr ⟨others, hothers, rfl⟩⟩
  · exact ⟨map, rfl⟩

/-- Every flattening with a separator of one letter, whatever its token looks like: also one that
overlaps itself, or that begins or ends the paths. -/
theorem restored_once {area token separator : String}
    (hf : Flattening.make area token separator = .ok f)
    (hs : (letters separator.toList).length = 1) (hw : IsWritten token) :
    (∀ path, f.restore (f.restore path) = f.restore path) ∧
    ∀ map, ∃ restored, restoreSources map (.flattening f) = .ok restored ∧
      restoreSources restored (.flattening f) = .ok restored := by
  obtain ⟨-, ht, hfree, rfl⟩ := Flattening.make_eq_ok_iff.mp hf
  have hpath := Flattening.restore_restore (f := ⟨area, token, separator⟩) hs ht hw hfree
  refine ⟨hpath, fun map => ?_⟩
  obtain ⟨restored, hrestored⟩ := exists_changeSources (fun path => ⟨_, rfl⟩ :
    ∀ path, ∃ s, PathTransform.restore path (.flattening ⟨area, token, separator⟩) = .ok s) map
  refine ⟨restored, hrestored, changeSources_changed ?_ hrestored⟩
  rintro path _ ⟨⟩
  exact congrArg Except.ok (hpath path)

/-- The pieces around the separator would be a token if they stood side by side. -/
theorem split_token_restored_once :
    Flattening.make "core" "ab" "/" = .ok { token := "ab" } ∧
    (letters "/".toList).length = 1 ∧ IsWritten "ab" ∧
    Flattening.restore { token := "ab" } "core/aabb" = "core/a/b" ∧
    Flattening.restore { token := "ab" } "core/a/b" = "core/a/b" ∧
    ∃ restored,
      restoreSources [("sources", .arr [.str "core/aabb", .null])] (.flattening { token := "ab" }) =
        .ok restored ∧
      restoreSources restored (.flattening { token := "ab" }) = .ok restored ∧
      (lookup restored "sources").items?.map (·.map Value.str?) = some [some "core/a/b", none] := by
  have hmade : Flattening.make "core" "ab" "/" = .ok { token := "ab" } := rfl
  have hletter : (letters "/".toList).length = 1 := rfl
  have hwritten : IsWritten "ab" := (isWhole_of_unmarked (forall_mem_of_all (by decide))).1.isWritten
  have hone : Flattening.restore { token := "ab" } "core/aabb" = "core/a/b" := by decide
  obtain ⟨hpaths, hmaps⟩ := restored_once hmade hletter hwritten
  obtain ⟨restored, hfirst, hagain⟩ := hmaps [("sources", .arr [.str "core/aabb", .null])]
  refine ⟨hmade, hletter, hwritten, hone, ?_, restored, hfirst, hagain, ?_⟩
  · have htwice := hpaths "core/aabb"
    rwa [hone] at htwice
  · cases hfirst
    decide

end ChunkBuild.Source
