import ChunkBuild.Proofs.Source.Flatten
/-! # What lies below the area

Flattening compares the first segment of a path's directory with the area, restoring looks for the area
and a separator at the start of the path. No segment holds a separator, so the two agree unless the area
holds one. Outside the area flattening takes a path apart and puts it together again, which loses a
separator that only a name follows. Main statements: the guards agree exactly for an area without a
separator, and outside the default area a path stays as it is unless it is a name behind a single
slash. -/
namespace ChunkBuild.Source.Flattening

open ChunkBuild.Text

variable {f : Flattening} {path : String} {n : List Char}

/-! ## The two guards -/

theorem restore_of_not_startsWith (h : startsWith (f.area ++ f.separator) path = false) :
    f.restore path = path := by
  have hnone : after? (f.area ++ f.separator).toList path.toList = none := by
    rwa [after?_eq_none_iff, ← startsWith_iff, Bool.not_eq_true]
  rw [restore, hnone]

/-- A token behind the area is restored to a separator. -/
theorem restore_token (ht : f.token ≠ "") :
    f.restore (f.area ++ f.separator ++ f.token) = f.area ++ f.separator ++ f.separator := by
  have hne : f.token.toList ≠ [] := by simpa using ht
  have hreplaced : replaceAll f.token.toList f.separator.toList f.token.toList =
      f.separator.toList := by
    have hsplit := splitOn_append (b := []) hne (clear_nil : Clear f.token.toList [])
    rw [List.nil_append, List.append_nil] at hsplit
    rw [replaceAll_eq_intercalate, hsplit]
    exact (intercalate_cons (List.cons_ne_nil _ _)).trans (by simp)
  rw [← String.toList_inj, restore_of_area (r := f.token.toList), hreplaced]
  · simp only [String.toList_append]
  · simp only [String.toList_append]

theorem startsWith_top (f : Flattening) (rest : String) :
    startsWith (f.area ++ f.separator) (f.area ++ f.separator ++ rest) = true := by
  rw [startsWith_iff, String.toList_append (s := f.area ++ f.separator)]
  exact List.prefix_append _ _

theorem forall_appliesTo_iff (hs : f.OneLetter) (ha : f.area ≠ "") :
    (∀ path, f.appliesTo (f.take path) = true ↔ startsWith (f.area ++ f.separator) path = true) ↔
      contains f.separator f.area = false := by
  constructor
  · intro hagree
    exact ((appliesTo_iff hs ha).mp ((hagree _).mpr (f.startsWith_top ""))).2
  · intro hfree path
    rw [appliesTo_iff hs ha, and_iff_left hfree]

/-- Behind an area that holds a separator a token alone is changed. -/
theorem forall_restore_iff (hs : f.OneLetter) (ha : f.area ≠ "") (ht : f.token ≠ "")
    (htoken : contains f.separator f.token = false) :
    (∀ path, f.appliesTo (f.take path) = false → f.restore path = path) ↔
      contains f.separator f.area = false := by
  constructor
  · intro hkept
    by_contra harea
    have hout : f.appliesTo (f.take (f.area ++ f.separator ++ f.token)) = false := by
      rw [← Bool.not_eq_true, appliesTo_iff hs ha]
      exact fun h => harea h.2
    have hsame := (restore_token ht).symm.trans (hkept _ hout)
    rw [← String.toList_inj, String.toList_append, String.toList_append (t := f.token),
      List.append_cancel_left_eq] at hsame
    rw [contains_eq_false_iff, ← hsame] at htoken
    exact htoken List.infix_rfl
  · intro hfree path hout
    apply restore_of_not_startsWith
    rw [← Bool.not_eq_true] at hout ⊢
    exact fun h => hout ((appliesTo_iff hs ha).mpr ⟨h, hfree⟩)

/-- For an area that holds a separator nothing is flattened, and yet tokens behind it are replaced. -/
theorem guards_agree_iff {area token separator : String} (hf : make area token separator = .ok f)
    (hs : (letters separator.toList).length = 1) :
    (∀ path, f.appliesTo (f.take path) = true ↔
      startsWith (area ++ separator) path = true ∧ contains separator area = false) ∧
    ((∀ path, f.appliesTo (f.take path) = true ↔ startsWith (area ++ separator) path = true) ↔
      contains separator area = false) ∧
    ((∀ path, f.appliesTo (f.take path) = false → f.restore path = path) ↔
      contains separator area = false) := by
  obtain ⟨ha, ht, htoken, rfl⟩ := make_eq_ok_iff.mp hf
  have hletter : OneLetter ⟨area, token, separator⟩ := hs
  exact ⟨fun _ => appliesTo_iff hletter ha, forall_appliesTo_iff hletter ha,
    forall_restore_iff hletter ha ht htoken⟩

/-- An area of two directories: a path below it is left alone by flattening and changed by restoring. -/
theorem nested_area_disagrees :
    make "core/ui" "-slash-" "/" = .ok { area := "core/ui" } ∧
    (startsWith "core/ui/" "core/ui/a-slash-b.js" = true ∧
      appliesTo { area := "core/ui" } (take { area := "core/ui" } "core/ui/a-slash-b.js") = false ∧
      restore { area := "core/ui" } "core/ui/a-slash-b.js" = "core/ui/a/b.js") ∧
    ¬ (∀ path, appliesTo { area := "core/ui" } (take { area := "core/ui" } path) = true ↔
      startsWith "core/ui/" path = true) ∧
    ∀ path, appliesTo {} (take {} path) = true ↔ startsWith "core/" path = true := by
  have hnested : make "core/ui" "-slash-" "/" = .ok { area := "core/ui" } := rfl
  have hplain : make "core" "-slash-" "/" = .ok {} := rfl
  refine ⟨hnested, ⟨rfl, rfl, rfl⟩, ?_, (guards_agree_iff hplain rfl).2.1.mpr rfl⟩
  intro hagree
  exact absurd ((guards_agree_iff hnested rfl).2.1.mp hagree) (by decide)

/-! ## Paths outside the area -/

/-- Of a name behind a separator nothing is left in front: its directory is empty, as is that of a name
without any. -/
theorem put_take_of_top (hs : f.OneLetter) (h : path.toList = f.separator.toList ++ n)
    (hn : ¬ f.separator.toList <:+: n) : f.put (f.take path) = String.ofList n := by
  have hsplit : splitOn f.separator.toList path.toList = [[]] ++ [n] := by
    have hfirst := splitOn_append (b := n) hs.ne_nil (clear_nil : Clear f.separator.toList [])
    rw [List.nil_append] at hfirst
    rw [h, hfirst, splitOn_of_absent hn]
    rfl
  have hempty : (String.ofList (f.separator.toList.intercalate [[]])).isEmpty = true := rfl
  rw [take_of_splitOn hs (List.cons_ne_nil _ _) hsplit, put, if_pos hempty, ← String.toList_inj,
    String.toList_append, String.toList_ofList, String.toList_ofList, String.toList_ofList,
    splitExtension_append]

/-- Outside the default area restoring changes nothing, and flattening takes the slash away from a name
behind a single one and changes nothing else. -/
theorem outside_kept_iff (hp : startsWith "core/" path = false) :
    restore {} path = path ∧
    ∃ flat, flatten {} path = .ok flat ∧
      (flat = path ↔ ¬ ∃ name, path = "/" ++ name ∧ contains "/" name = false) ∧
      ∀ name, path = "/" ++ name → contains "/" name = false → flat = name := by
  have hs : OneLetter {} := .of_slash rfl
  have hout : appliesTo {} (take {} path) = false := by
    rw [← Bool.not_eq_true, appliesTo_iff hs (by decide)]
    rintro ⟨hstarts, -⟩
    exact absurd (hp.symm.trans hstarts) (by decide)
  have htop (name : String) (hpath : path = "/" ++ name) (hfree : contains "/" name = false) :
      put {} (take {} path) = name := by
    have hlist : path.toList = "/".toList ++ name.toList := by rw [hpath, String.toList_append]
    rw [put_take_of_top hs hlist (contains_eq_false_iff.mp hfree), String.ofList_toList]
  refine ⟨restore_of_not_startsWith hp, _, flatten_of_outside hout, ⟨?_, ?_⟩, htop⟩
  · rintro hkept ⟨name, hpath, hfree⟩
    -- a text is not the same with a slash in front
    have hlength := congrArg (fun s => s.toList.length) ((htop name hpath hfree).symm.trans hkept)
    rw [hpath] at hlength
    simp at hlength
  · intro hnot
    apply put_take_of_not_top hs
    rintro ⟨n, hn, hfree⟩
    obtain ⟨name, rfl⟩ : ∃ name : String, n = name.toList :=
      ⟨String.ofList n, String.toList_ofList.symm⟩
    refine hnot ⟨name, ?_, contains_eq_false_iff.mpr hfree⟩
    rw [← String.toList_inj, hn, String.toList_append]

theorem slash_taken_from_name :
    (startsWith "core/" "/a.js" = false ∧ flatten {} "/a.js" = .ok "a.js") ∧
    (startsWith "core/" "//a.js" = false ∧ flatten {} "//a.js" = .ok "//a.js") := by
  have hlone : startsWith "core/" "/a.js" = false := rfl
  have hdouble : startsWith "core/" "//a.js" = false := rfl
  obtain ⟨-, flat, hflat, -, hname⟩ := outside_kept_iff hlone
  obtain ⟨-, kept, hkept, hsame, -⟩ := outside_kept_iff hdouble
  refine ⟨⟨hlone, ?_⟩, hdouble, ?_⟩
  · rw [hflat, hname "a.js" rfl rfl]
  · rw [hkept, hsame.mpr ?_]
    rintro ⟨name, hpath, hfree⟩
    have htail : "/a.js" = name := by
      rw [← String.toList_inj] at hpath ⊢
      rw [String.toList_append] at hpath
      exact List.append_cancel_left (show "/".toList ++ "/a.js".toList = _ from hpath)
    rw [← htail] at hfree
    exact absurd hfree (by decide)

end ChunkBuild.Source.Flattening
