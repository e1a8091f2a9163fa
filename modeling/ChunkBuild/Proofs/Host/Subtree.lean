import ChunkBuild.Proofs.Host.Spared
/-! # Files below a place

Which files stand at a place and below it. Main statements: none do after a tree was removed, nor where a
directory is made that was not there, as long as files stand in directories. -/
namespace ChunkBuild

open ChunkBuild.Text

namespace FileTree

variable {t u : FileTree} {place loc : Location} {content : Bytes} {files : List (Location × Bytes)}

/-- Every file stands in a directory, and that in another one, up to the root. -/
def IsGrounded (t : FileTree) : Prop :=
  ∀ loc content, t.at? loc = some (.file content) → t.Reaches loc

def HoldsBelow (t : FileTree) (place : Location) (files : List (Location × Bytes)) : Prop :=
  ∀ loc content, place <+: loc → (t.at? loc = some (.file content) ↔ (loc, content) ∈ files)

theorem HoldsBelow.of_spares (h : t.HoldsBelow place files) (hs : Spares (fun _ => False) t u) :
    u.HoldsBelow place files := by
  intro loc content hloc
  rw [hs.file_iff not_false]
  exact h loc content hloc

theorem HoldsBelow.put (h : t.HoldsBelow place files) (hne : loc ≠ [])
    (hfree : ∀ x ∈ files, x.1 ≠ loc) :
    (t.put loc (.file content)).HoldsBelow place (files ++ [(loc, content)]) := by
  intro other bytes ho
  rw [List.mem_append, List.mem_singleton]
  by_cases he : loc = other
  · subst he
    rw [at?_put_self hne]
    constructor
    · intro hb
      cases hb
      exact .inr rfl
    · rintro (hmem | hlast)
      · exact absurd rfl (hfree _ hmem)
      · rw [(Prod.mk.inj hlast).2]
  · rw [at?_put_of_ne he, h other bytes ho]
    constructor
    · exact .inl
    · rintro (hmem | hlast)
      · exact hmem
      · exact absurd (Prod.mk.inj hlast).1.symm he

/-- Where nothing stands there are no files below either. -/
theorem IsGrounded.holdsBelow (hg : t.IsGrounded) (hnone : t.at? place = none) :
    t.HoldsBelow place [] := by
  intro loc content hloc
  refine iff_of_false ?_ List.not_mem_nil
  intro hfile
  by_cases he : place = loc
  · subst he
    rw [hnone] at hfile
    cases hfile
  · rw [Reaches.at_of_prefix (hg loc content hfile) hloc he] at hnone
    cases hnone

/-- Whether files stand in directories is a matter of the entries. -/
theorem isGrounded_of_entries
    (h : ∀ x ∈ t, ∀ q ∈ x.1.dropLast.inits, t.at? q = some .directory) : t.IsGrounded := by
  intro loc content hfile q hq
  have hne : loc ≠ [] := by
    rintro rfl
    cases hfile
  rw [at?_eq_find hne, Option.map_eq_some_iff] at hfile
  obtain ⟨x, hx, -⟩ := hfile
  have he := List.find?_some hx
  rw [decide_eq_true_eq] at he
  rw [← he] at hq
  exact h x (List.mem_of_find?_eq_some hx) q ((List.mem_inits _ _).mpr hq)

theorem holdsBelow_remove : (t.remove place).HoldsBelow place [] := by
  intro loc content hloc
  refine iff_of_false ?_ List.not_mem_nil
  intro hfile
  by_cases hne : loc = []
  · subst hne
    cases hfile
  · rw [at?_eq_find hne, find_remove_of_prefix hloc] at hfile
    cases hfile

end FileTree

/-! ## Steps that succeed -/

namespace Job

variable {h k : Host} {q : Path}

theorem absent_of_makeDirectory (hr : makeDirectory q h = .ok () k) :
    h.files.at? (q.placeIn h.current) = none := by
  obtain ⟨loc, files, hq, hmake, -⟩ := atPlace_eq_ok.mp hr
  obtain ⟨u, hu, -⟩ := except_map_eq_ok.mp hmake
  rw [hq.placeIn_eq]
  unfold FileTree.makeDirectory at hu
  split at hu
  · cases hu
  · next hnone => exact hnone

/-- A directory that is not to be there yet is made where nothing stands. -/
theorem absent_of_makeDirectories (hr : makeDirectories q h = .ok () k) :
    h.files.at? (q.placeIn h.current) = none := by
  obtain ⟨r, m, ho, hrest⟩ := bind_eq_ok.mp hr
  rcases outcome_eq_ok.mp ho with ⟨_, hmake, rfl⟩ | ⟨e, hfailed, rfl⟩
  · exact absent_of_makeDirectory hmake
  · have hm : m = h := left_of_atPlace_error hfailed
    rw [hm] at hrest
    cases e
    case file failed =>
      dsimp only at hrest
      by_cases hparts : (failed.problem = .notFound && !q.parts.isEmpty) = true
      · rw [if_pos hparts] at hrest
        obtain ⟨_, n, hparents, hmake⟩ := bind_eq_ok.mp hrest
        have hspares : Spares h.current (fun _ => False) (ensureDirectories q.parent) :=
          spares_ensureDirectories
        obtain ⟨hc, hs⟩ := hspares.of_ok rfl hparents
        have hnone := absent_of_makeDirectory hmake
        rw [hc] at hnone
        exact hs.none_of_none not_false hnone
      · rw [if_neg hparts] at hrest
        cases hrest
    all_goals cases hrest

theorem holdsBelow_of_removeTree (hr : removeTree q h = .ok () k) :
    k.files.HoldsBelow (q.placeIn h.current) [] := by
  obtain ⟨_, m, hcheck, hrest⟩ := bind_eq_ok.mp hr
  obtain ⟨-, rfl⟩ := checkPathText_eq_ok.mp hcheck
  rw [get_bind] at hrest
  cases hl : m.locate q with
  | error e =>
    rw [hl] at hrest
    cases hrest
  | ok loc =>
    rw [hl] at hrest
    dsimp only at hrest
    cases hat : m.files.at? loc with
    | none =>
      rw [hat] at hrest
      cases hrest
    | some entry =>
      rw [hat] at hrest
      cases entry with
      | file content => cases hrest
      | directory =>
        obtain ⟨_, n, hset, hrest⟩ := bind_eq_ok.mp hrest
        cases hset
        obtain ⟨place, files, hq, hremove, rfl⟩ := atPlace_eq_ok.mp hrest
        cases hremove
        rw [← hq.placeIn_eq]
        exact FileTree.holdsBelow_remove

end Job

end ChunkBuild
