import ChunkBuild.Proofs.Host.Files
import ChunkBuild.Proofs.Path.Normal
/-! # The places that paths denote

Without links a path that leads anywhere leads where its names say, `..` being the directory above.
Main statement: that is the place of the resolved path, its names as the system gives them back. -/
namespace ChunkBuild

open ChunkBuild.Text

namespace FileTree

def follow : Location → List String → Location
  | here, [] => here
  | here, name :: r =>
    if name.isEmpty || name = "." then follow here r
    else if name = ".." then follow here.dropLast r
    else follow (here ++ [systemText name]) r

variable {t : FileTree} {here loc : Location} {names more : List String}

theorem entered_eq_ok {name : String} (h : entered here name = .ok loc) :
    loc = here ++ [systemText name] := by
  unfold entered at h
  split at h
  · cases h
  · exact (Except.ok.inj h).symm

theorem follow_of_walk (h : t.walk here names = .ok loc) : follow here names = loc := by
  fun_induction walk t here names with
  | case1 here => exact Except.ok.inj h
  | case2 here name hn =>
    rw [follow, if_pos hn]
    exact Except.ok.inj h
  | case3 here hn =>
    rw [follow, if_neg hn, if_pos rfl]
    exact Except.ok.inj h
  | case4 here name hn hup =>
    rw [follow, if_neg hn, if_neg hup]
    exact (entered_eq_ok h).symm
  | case5 here name next r hn ih => rw [follow, if_pos hn, ih h]
  | case6 here next r hn ih => rw [follow, if_neg hn, if_pos rfl, ih h]
  | case7 => cases h
  | case8 => cases h
  | case9 => cases h
  | case10 here name next r hn hup l he hat ih =>
    rw [follow, if_neg hn, if_neg hup, ← entered_eq_ok he, ih h]

theorem follow_append : follow here (names ++ more) = follow (follow here names) more := by
  fun_induction follow here names with
  | case1 => rfl
  | case2 here name r hn ih => rw [List.cons_append, follow, if_pos hn, ih]
  | case3 here r hn ih => rw [List.cons_append, follow, if_neg hn, if_pos rfl, ih]
  | case4 here name r hn hup ih => rw [List.cons_append, follow, if_neg hn, if_neg hup, ih]

theorem follow_names (h : ∀ s ∈ names, s ≠ "" ∧ s ≠ ".") (hup : ".." ∉ names) :
    follow here names = here ++ names.map systemText := by
  induction names generalizing here with
  | nil => rw [follow, List.map_nil, List.append_nil]
  | cons s names ih =>
    obtain ⟨hs, hrest⟩ := List.forall_mem_cons.mp h
    rw [List.mem_cons, not_or] at hup
    have hnamed : ¬ (s.isEmpty || s = ".") = true := by simp [hs]
    rw [follow, if_neg hnamed, if_neg fun he => hup.1 he.symm, ih hrest hup.2, List.map_cons,
      List.append_assoc]
    rfl

/-- A place above an anchor is followed as the parts are folded. -/
theorem follow_foldParts {done : List String} (h : ∀ s ∈ names, s ≠ "" ∧ s ≠ ".")
    (hd : ".." ∉ done) : follow (done.reverse.map systemText) names =
      (foldParts true done names).map systemText := by
  induction names generalizing done with
  | nil => rw [follow, foldParts]
  | cons s names ih =>
    obtain ⟨hs, hrest⟩ := List.forall_mem_cons.mp h
    have hnamed : ¬ (s.isEmpty || s = ".") = true := by simp [hs]
    rw [follow, if_neg hnamed]
    by_cases hup : s = ".."
    · subst hup
      rw [if_pos rfl]
      cases done with
      | nil =>
        rw [foldParts, if_pos rfl]
        exact ih hrest hd
      | cons d ds =>
        rw [List.mem_cons, not_or] at hd
        rw [foldParts, if_neg fun he => hd.1 he.symm, ← ih hrest hd.2, List.reverse_cons,
          List.map_append, List.map_singleton, List.dropLast_concat]
    · have hcons : ".." ∉ s :: done := by
        rw [List.mem_cons, not_or]
        exact ⟨fun he => hup he.symm, hd⟩
      rw [if_neg hup, foldParts, ← ih hrest hcons, List.reverse_cons, List.map_append,
        List.map_singleton]
      exact hup

end FileTree

/-- The place that a path denotes in a current directory, whatever stands there. -/
def Path.placeIn (p cwd : Path) : Location :=
  FileTree.follow (if p.isAbsolute then [] else cwd.parts) p.parts

variable {h : Host} {p q cwd : Path} {loc : Location}

theorem Path.placeIn_of_locate (hl : h.locate p = .ok loc) : p.placeIn h.current = loc := by
  unfold Host.locate at hl
  split at hl
  · cases hl
  · exact FileTree.follow_of_walk hl

theorem Host.LeadsTo.placeIn_eq (hp : h.LeadsTo p loc) : p.placeIn h.current = loc :=
  Path.placeIn_of_locate hp.located

theorem Path.placeIn_join (hr : q.isAbsolute = false) :
    (p.join q).placeIn cwd = FileTree.follow (p.placeIn cwd) q.parts := by
  rw [Path.join, hr, if_neg Bool.false_ne_true, Path.placeIn, Path.placeIn]
  exact FileTree.follow_append

theorem Path.placeIn_join_names (hr : q.isAbsolute = false) (hq : q.IsPlain) (hup : ".." ∉ q.parts) :
    (p.join q).placeIn cwd = p.placeIn cwd ++ q.parts.map systemText := by
  rw [Path.placeIn_join hr, FileTree.follow_names (fun s hs => ⟨(hq s hs).1, (hq s hs).2.1⟩) hup]

/-- The system names a directory by the names that it gives itself, none of which leads up. -/
structure Path.IsNative (cwd : Path) : Prop where
  no_up : ".." ∉ cwd.parts
  given : ∀ s ∈ cwd.parts, systemText s = s

theorem Path.placeIn_eq_resolve (hc : cwd.IsNative) (hp : p.IsPlain) :
    p.placeIn cwd = (p.resolve cwd).parts.map systemText := by
  have hnamed : ∀ s ∈ p.parts, s ≠ "" ∧ s ≠ "." := fun s hs => ⟨(hp s hs).1, (hp s hs).2.1⟩
  rw [Path.placeIn, Path.resolve, Path.join]
  by_cases ha : p.isAbsolute = true
  · rw [if_pos ha, if_pos ha]
    exact FileTree.follow_foldParts hnamed List.not_mem_nil
  · have hback : cwd.parts = cwd.parts.reverse.reverse.map systemText := by
      rw [List.reverse_reverse]
      exact (List.map_id' cwd.parts).symm.trans (List.map_congr_left fun s hs => (hc.given s hs).symm)
    rw [if_neg ha, if_neg ha]
    dsimp only
    rw [foldParts_append, foldParts_of_no_up hc.no_up, List.reverse_nil, List.nil_append]
    conv_lhs => rw [hback]
    exact FileTree.follow_foldParts hnamed (by rw [List.mem_reverse]; exact hc.no_up)

end ChunkBuild
