import ChunkBuild.Proofs.Path.Normal
import ChunkBuild.Proofs.Source.Flatten
/-! # Flattened paths lead nowhere else

The segments of a path and the token hold no slash, so a flattened path has two names, the area and the
joined segments; neither leads up. -/
namespace ChunkBuild.Source.Flattening

open ChunkBuild.Text

variable {f : Flattening} {area token flat : String} {q : Path} {s : List Char}
  {ds : List (List Char)}

structure IsEntryName (s : List Char) : Prop where
  ne_nil : s ≠ []
  ne_here : s ≠ ['.']
  ne_up : s ≠ ['.', '.']
  no_slash : '/' ∉ s

theorem isEntryName_of_mem (hq : q.IsPlain) (hup : ".." ∉ q.parts) {t : String}
    (ht : t ∈ q.parts) : IsEntryName t.toList := by
  obtain ⟨hne, hdot, hslash⟩ := hq t ht
  refine ⟨?_, ?_, ?_, hslash⟩
  · exact fun h => hne (String.toList_inj.mp h)
  · exact fun h => hdot (String.toList_inj.mp h)
  · intro h
    obtain rfl : t = ".." := String.toList_inj.mp h
    exact hup ht

/-- Segments that are joined make a name: two of them and the token are longer than `..`. -/
theorem isEntryName_intercalate (ht : token ≠ "") (hslash : '/' ∉ token.toList) (hd : ds ≠ [])
    (h : ∀ s ∈ ds, IsEntryName s) : IsEntryName (token.toList.intercalate ds) := by
  obtain ⟨d, ds, rfl⟩ := List.exists_cons_of_ne_nil hd
  cases ds with
  | nil =>
    rw [List.intercalate_singleton]
    exact h d List.mem_cons_self
  | cons e es =>
    have htoken : token.toList.length ≠ 0 := by simpa using ht
    have hfirst : d.length ≠ 0 := by simpa using (h d List.mem_cons_self).ne_nil
    have hsecond : e.length ≠ 0 := by
      simpa using (h e (List.mem_cons_of_mem d List.mem_cons_self)).ne_nil
    have hlength : 3 ≤ (token.toList.intercalate (d :: e :: es)).length := by
      have hrest := (prefix_intercalate token.toList e es).length_le
      rw [intercalate_cons (List.cons_ne_nil e es), List.length_append, List.length_append]
      omega
    refine ⟨?_, ?_, ?_, notMem_intercalate hslash fun s hs => (h s hs).no_slash⟩
    · intro he
      simp [he] at hlength
    · intro he
      simp [he] at hlength
    · intro he
      simp [he] at hlength

/-- The segments of a path are its names. -/
theorem isEntryName_of_splitOn (hq : q.IsPlain) (hr : q.anchor = .relative) (hup : ".." ∉ q.parts)
    (h : splitOn ['/'] q.text.toList = ds) (hl : ds.length ≠ 1) : ∀ s ∈ ds, IsEntryName s := by
  have hparts : q.parts ≠ [] := by
    intro hnil
    have htext : q.text = "." := by
      rw [Path.text, hr, hnil]
      rfl
    rw [htext] at h
    exact hl (h ▸ rfl)
  rw [Path.splitOn_text hq hr hparts] at h
  rw [← h]
  exact List.forall_mem_map.mpr fun t ht => isEntryName_of_mem hq hup ht

/-- Names make a path that leads nowhere up. -/
theorem names_of_isEntryName {ts : List String} {a : Anchor}
    (h : ∀ t ∈ ts, IsEntryName t.toList) : (Path.mk a ts).IsPlain ∧ ".." ∉ (Path.mk a ts).parts := by
  constructor
  · intro t ht
    obtain ⟨hne, hdot, -, hslash⟩ := h t ht
    refine ⟨?_, ?_, hslash⟩
    · rintro rfl
      exact hne rfl
    · rintro rfl
      exact hdot rfl
  · exact fun ht => (h ".." ht).ne_up rfl

/-- A path of names is flattened to a path of names. -/
theorem ofText_flatten (hf : make area token "/" = .ok f) (hq : q.IsPlain)
    (hr : q.anchor = .relative) (hup : ".." ∉ q.parts) (hx : f.flatten q.text = .ok flat) :
    (Path.ofText flat).anchor = .relative ∧ ".." ∉ (Path.ofText flat).parts := by
  obtain ⟨harea, htoken, hfree, rfl⟩ := make_eq_ok_iff.mp hf
  have hletter : OneLetter ⟨area, token, "/"⟩ := .of_slash rfl
  by_cases happlies : appliesTo ⟨area, token, "/"⟩ (take ⟨area, token, "/"⟩ q.text) = true
  · obtain ⟨ds, n, hsplit⟩ := splitOn_of_appliesTo hletter harea happlies
    have hflat := flatten_of_splitOn hletter harea hsplit hx
    dsimp only at hsplit hflat
    change splitOn ['/'] q.text.toList = area.toList :: (ds ++ [n]) at hsplit
    change flat.toList = area.toList ++ ['/'] ++ token.toList.intercalate (ds ++ [n]) at hflat
    have hnames := isEntryName_of_splitOn hq hr hup hsplit (by simp)
    obtain ⟨ha, hrest⟩ := List.forall_mem_cons.mp hnames
    have hslash : '/' ∉ token.toList := by
      rw [← Bool.not_eq_true, contains_iff] at hfree
      exact fun h => hfree ((List.singleton_infix_iff _ _).mpr h)
    have hjoined := isEntryName_intercalate htoken hslash (List.concat_ne_nil n ds) hrest
    let both : Path := ⟨.relative, [area, String.ofList (token.toList.intercalate (ds ++ [n]))]⟩
    have hboth : both.IsPlain ∧ ".." ∉ both.parts := by
      refine names_of_isEntryName (List.forall_mem_cons.mpr ⟨ha, List.forall_mem_singleton.mpr ?_⟩)
      rwa [String.toList_ofList]
    have htext : flat = both.text := by
      rw [← String.toList_inj, hflat, Path.text_relative rfl (List.cons_ne_nil _ _), toList_join]
      simp [both]
    rw [htext, Path.ofText_text hboth.1 rfl]
    exact ⟨rfl, hboth.2⟩
  · rw [Bool.not_eq_true] at happlies
    have hslash : ¬ "/".toList <+: q.text.toList := Path.not_slash_text hq hr
    have hsame : flat = q.text :=
      (flatten_of_not_appliesTo happlies hx).trans (put_take hletter hslash)
    rw [hsame, Path.ofText_text hq hr]
    exact ⟨hr, hup⟩

end ChunkBuild.Source.Flattening
