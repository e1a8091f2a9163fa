import ChunkBuild.Proofs.Results
import ChunkBuild.Proofs.Text.Pieces
import ChunkBuild.Source.Flatten
/-! # Restoring flattened paths

A path below the area is flattened by putting the token for each separator behind the area, and it is
restored by putting the separator for each token that is found. The segments are looked at one by one,
so a token that begins at the end of a directory's name, or stands in the extension, is not noticed.
Main statement: a flattened path is restored exactly when the token separates its segments. -/
namespace ChunkBuild.Source

open ChunkBuild.Text

variable {f : Flattening} {path flat : String} {ds : List (List Char)} {n : List Char}

theorem splitExtension_append (name : List Char) :
    (splitExtension name).1 ++ (splitExtension name).2 = name := by
  unfold splitExtension
  cases hc : cutLast ['.'] name with
  | none => exact List.append_nil name
  | some found =>
    obtain ⟨before, after⟩ := found
    dsimp only
    split_ifs
    · exact List.append_nil name
    · rw [cutLast_eq_some hc, List.append_assoc]
      rfl

theorem intercalate_concat_append (token a b : List Char) (ds : List (List Char)) :
    token.intercalate (ds ++ [a]) ++ b = token.intercalate (ds ++ [a ++ b]) := by
  by_cases hd : ds = []
  · rw [hd, List.nil_append, List.nil_append, List.intercalate_singleton, List.intercalate_singleton]
  · rw [intercalate_concat hd, intercalate_concat hd, List.append_assoc _ a b]

namespace Flattening

def below (f : Flattening) (path : String) : List (List Char) :=
  (splitOn f.separator.toList path.toList).drop 1

/-- The token is found between the segments behind the first one and nowhere else. -/
def Separable (f : Flattening) (path : String) : Prop := Separates f.token.toList (f.below path)

def OneLetter (f : Flattening) : Prop := (letters f.separator.toList).length = 1

theorem make_eq_ok_iff {area token separator : String} : make area token separator = .ok f ↔
    area ≠ "" ∧ token ≠ "" ∧ contains separator token = false ∧ f = ⟨area, token, separator⟩ := by
  unfold make
  split_ifs with ha ht
  · rw [String.isEmpty_iff] at ha
    simp [ha]
  · rw [Bool.or_eq_true, String.isEmpty_iff] at ht
    rcases ht with ht | ht
    · simp [ht]
    · simp [ht]
  · rw [Bool.or_eq_true, String.isEmpty_iff, not_or, Bool.not_eq_true] at ht
    rw [String.isEmpty_iff] at ha
    simp [ha, ht.1, ht.2, eq_comm]

theorem OneLetter.of_slash (hs : f.separator = "/") : f.OneLetter := by
  rw [OneLetter, hs]
  rfl

theorem OneLetter.ne_nil (hs : f.OneLetter) : f.separator.toList ≠ [] := by
  intro h
  rw [OneLetter, h] at hs
  cases hs

theorem OneLetter.unbordered (hs : f.OneLetter) : Unbordered f.separator.toList :=
  unbordered_of_letter hs

theorem OneLetter.separates_iff (hs : f.OneLetter) {ps : List (List Char)} :
    Separates f.separator.toList ps ↔ ps ≠ [] ∧ ∀ p ∈ ps, ¬ f.separator.toList <:+: p :=
  separates_iff_of_unbordered hs.ne_nil hs.unbordered

/-- A path with directories is taken apart into them and its name. -/
theorem take_of_splitOn (hs : f.OneLetter) (hd : ds ≠ [])
    (h : splitOn f.separator.toList path.toList = ds ++ [n]) :
    f.take path = ⟨String.ofList (f.separator.toList.intercalate ds),
      String.ofList (splitExtension n).1, String.ofList (splitExtension n).2⟩ := by
  obtain ⟨hsep, hpath⟩ := (splitOn_eq_iff hs.ne_nil).mp h
  have hn : ¬ f.separator.toList <:+: n :=
    (hs.separates_iff.mp hsep).2 n (List.mem_append_right ds List.mem_cons_self)
  rw [intercalate_concat hd] at hpath
  have hcut := cutLast_append (a := f.separator.toList.intercalate ds) hs.ne_nil hs.unbordered hn
  -- the letters of the separator after its first one stay with the directory; there are none
  have hletters : ((letters f.separator.toList).drop 1).flatten = [] := by
    rw [List.drop_of_length_le (Nat.le_of_eq hs)]
    rfl
  rw [take, ← hpath, hcut]
  dsimp only
  rw [hletters]
  rfl

theorem segments_of_splitOn (hs : f.OneLetter) (hd : ds ≠ [])
    (h : splitOn f.separator.toList path.toList = ds ++ [n]) :
    f.segments (f.take path).directory = ds.map String.ofList := by
  obtain ⟨hsep, -⟩ := (splitOn_eq_iff hs.ne_nil).mp h
  have hds : Separates f.separator.toList ds := by
    rw [hs.separates_iff] at hsep ⊢
    exact ⟨hd, fun p hp => hsep.2 p (List.mem_append_left [n] hp)⟩
  rw [take_of_splitOn hs hd h, segments, split, String.toList_ofList,
    splitOn_intercalate hs.ne_nil hds]

/-- The path lies below the area. -/
theorem appliesTo_of_splitOn (hs : f.OneLetter)
    (h : splitOn f.separator.toList path.toList = f.area.toList :: ds ++ [n]) :
    f.appliesTo (f.take path) = true := by
  rw [appliesTo, segments_of_splitOn hs (List.cons_ne_nil _ ds) h]
  simp

/-- The parts that are joined, the last one without the extension. -/
theorem flatten_of_splitOn (hs : f.OneLetter) (ha : f.area ≠ "")
    (h : splitOn f.separator.toList path.toList = f.area.toList :: ds ++ [n])
    (hflat : f.flatten path = .ok flat) :
    flat.toList = f.area.toList ++ f.separator.toList ++ f.token.toList.intercalate (ds ++ [n]) := by
  have hsegments := segments_of_splitOn hs (List.cons_ne_nil _ ds) h
  have happlies := appliesTo_of_splitOn hs h
  obtain ⟨parts, hforward, rfl⟩ := except_map_eq_ok.mp hflat
  rw [forward, happlies, Bool.not_true, if_neg Bool.false_ne_true, hsegments] at hforward
  dsimp only at hforward
  split at hforward
  · cases hforward
  · cases hforward
    have harea : f.area.isEmpty = false := by simpa using ha
    have hid : String.toList ∘ String.ofList = id := funext fun _ => String.toList_ofList
    rw [put, take_of_splitOn hs (List.cons_ne_nil _ ds) h, harea, if_neg Bool.false_ne_true]
    simp only [String.toList_append, toList_join, List.map_cons, List.drop_succ_cons, List.drop_zero,
      List.map_append, List.map_map, hid, List.map_id, String.toList_ofList, List.map_nil]
    rw [intercalate_concat_append, splitExtension_append]

theorem restore_of_area {r : List Char}
    (h : flat.toList = f.area.toList ++ f.separator.toList ++ r) :
    (f.restore flat).toList =
      f.area.toList ++ f.separator.toList ++ replaceAll f.token.toList f.separator.toList r := by
  have hafter : after? (f.area ++ f.separator).toList flat.toList = some r := by
    rw [after?_eq_some_iff, h, String.toList_append]
  rw [restore, hafter]
  simp only [String.toList_append, String.toList_ofList]

/-- A path that starts with the area and a separator, by its segments. -/
theorem splitOn_of_startsWith (hs : f.OneLetter) (ha : contains f.separator f.area = false)
    (hp : startsWith (f.area ++ f.separator) path = true) :
    ∃ ds n, splitOn f.separator.toList path.toList = f.area.toList :: ds ++ [n] := by
  rw [startsWith_iff, String.toList_append] at hp
  obtain ⟨r, hr⟩ := hp
  have harea : ¬ f.separator.toList <:+: f.area.toList := contains_eq_false_iff.mp ha
  obtain ⟨ds, n, hd⟩ := (splitOn f.separator.toList r).eq_nil_or_concat.resolve_left
    (separates_splitOn hs.ne_nil r).1.ne_nil
  refine ⟨ds, n, ?_⟩
  rw [← hr, splitOn_append hs.ne_nil (clear_of_unbordered hs.unbordered harea), hd,
    List.concat_eq_append, List.cons_append]

/-- Joining by the token and looking for it again gives back the segments exactly when it separates
them: two lists of segments that read alike under the token and under the separator are the same. -/
theorem restore_flatten_iff {area token separator : String}
    (hf : make area token separator = .ok f) (hs : (letters separator.toList).length = 1)
    (ha : contains separator area = false) (hp : startsWith (area ++ separator) path = true)
    (hflat : f.flatten path = .ok flat) : f.restore flat = path ↔ f.Separable path := by
  obtain ⟨harea, htoken, -, rfl⟩ := make_eq_ok_iff.mp hf
  have hletter : OneLetter ⟨area, token, separator⟩ := hs
  obtain ⟨ds, n, h⟩ := splitOn_of_startsWith hletter ha hp
  obtain ⟨hsep, hpath⟩ := (splitOn_eq_iff hletter.ne_nil).mp h
  have hbelow : below ⟨area, token, separator⟩ path = ds ++ [n] := by
    rw [below, h]
    rfl
  have hsegments : Separates separator.toList (ds ++ [n]) := by
    rw [hletter.separates_iff] at hsep ⊢
    exact ⟨List.concat_ne_nil n ds, fun p hp => hsep.2 p (List.mem_cons_of_mem _ hp)⟩
  have hne : token.toList ≠ [] := by simpa using htoken
  rw [List.cons_append, intercalate_cons hsegments.ne_nil] at hpath
  rw [Separable, hbelow, ← replaceAll_intercalate_iff hne hsegments, ← String.toList_inj, ← hpath,
    restore_of_area (flatten_of_splitOn hletter harea h hflat), List.append_cancel_left_eq]

instance (f : Flattening) (path : String) : Decidable (f.Separable path) :=
  inferInstanceAs (Decidable (Separates _ _))

/-- Both directories are flattened to one name, which is restored to the second path. -/
theorem one_of_two_paths_restored :
    make "core" "-slash-" "/" = .ok {} ∧
    (flatten {} "core/x-slash/y.js" = .ok "core/x-slash-slash-y.js" ∧
      restore {} "core/x-slash-slash-y.js" ≠ "core/x-slash/y.js") ∧
    flatten {} "core/x/slash-y.js" = .ok "core/x-slash-slash-y.js" ∧
      restore {} "core/x-slash-slash-y.js" = "core/x/slash-y.js" := by
  have hmake : make "core" "-slash-" "/" = .ok {} := rfl
  have hfirst : flatten {} "core/x-slash/y.js" = .ok "core/x-slash-slash-y.js" := rfl
  have hsecond : flatten {} "core/x/slash-y.js" = .ok "core/x-slash-slash-y.js" := rfl
  refine ⟨hmake, ⟨hfirst, ?_⟩, hsecond, ?_⟩
  · rw [Ne, restore_flatten_iff hmake rfl rfl rfl hfirst]
    decide
  · rw [restore_flatten_iff hmake rfl rfl rfl hsecond]
    decide

/-! ## Paths that are flattened to one -/

variable {p q x y : String}

theorem splitOn_cases (hs : f.OneLetter) (path : String) : ¬ f.separator.toList <:+: path.toList ∨
    ∃ ds n, ds ≠ [] ∧ splitOn f.separator.toList path.toList = ds ++ [n] := by
  obtain ⟨hsep, hpath⟩ := separates_splitOn hs.ne_nil path.toList
  obtain ⟨ds, n, h⟩ :=
    (splitOn f.separator.toList path.toList).eq_nil_or_concat.resolve_left hsep.ne_nil
  rw [List.concat_eq_append] at h
  by_cases hd : ds = []
  · rw [h, hd] at hsep hpath
    rw [List.nil_append, List.intercalate_singleton] at hpath
    left
    rw [← hpath]
    exact (hs.separates_iff.mp hsep).2 n List.mem_cons_self
  · exact .inr ⟨ds, n, hd, h⟩

theorem take_of_absent (h : ¬ f.separator.toList <:+: path.toList) :
    f.take path = ⟨String.ofList [], String.ofList (splitExtension path.toList).1,
      String.ofList (splitExtension path.toList).2⟩ := by
  rw [take, cutLast_eq_none h]

/-- A path is put together again from its parts unless it is a name behind a single separator. -/
theorem put_take_of_not_top (hs : f.OneLetter)
    (htop : ¬ ∃ n, path.toList = f.separator.toList ++ n ∧ ¬ f.separator.toList <:+: n) :
    f.put (f.take path) = path := by
  rw [← String.toList_inj]
  rcases splitOn_cases hs path with h | ⟨ds, n, hd, h⟩
  · have hempty : (String.ofList []).isEmpty = true := rfl
    rw [take_of_absent h, put, if_pos hempty, String.toList_append, String.toList_ofList,
      String.toList_ofList, splitExtension_append]
  · obtain ⟨hsep, hpath⟩ := (splitOn_eq_iff hs.ne_nil).mp h
    rw [intercalate_concat hd] at hpath
    -- an empty directory would leave a separator and the name
    have hne : f.separator.toList.intercalate ds ≠ [] := by
      intro hnil
      rw [hnil] at hpath
      refine htop ⟨n, hpath.symm, ?_⟩
      exact (hs.separates_iff.mp hsep).2 n (List.mem_append_right ds List.mem_cons_self)
    have hempty : (String.ofList (f.separator.toList.intercalate ds)).isEmpty = false := by
      simpa using hne
    rw [take_of_splitOn hs hd h, put, hempty, if_neg Bool.false_ne_true]
    simp only [String.toList_append, String.toList_ofList, splitExtension_append]
    exact hpath

theorem put_take (hs : f.OneLetter) (hp : ¬ f.separator.toList <+: path.toList) :
    f.put (f.take path) = path :=
  put_take_of_not_top hs fun ⟨n, hn, _⟩ => hp ⟨n, hn.symm⟩

/-- What lies below the area has the area for its first segment. -/
theorem splitOn_of_appliesTo (hs : f.OneLetter) (ha : f.area ≠ "")
    (h : f.appliesTo (f.take path) = true) :
    ∃ ds n, splitOn f.separator.toList path.toList = f.area.toList :: ds ++ [n] := by
  rw [appliesTo, beq_iff_eq] at h
  rcases splitOn_cases hs path with hnone | ⟨ds, n, hd, hsplit⟩
  · rw [take_of_absent hnone] at h
    exact absurd (Option.some.inj h).symm ha
  · rw [segments_of_splitOn hs hd hsplit] at h
    obtain ⟨d, ds, rfl⟩ := List.exists_cons_of_ne_nil hd
    refine ⟨ds, n, ?_⟩
    rw [hsplit, ← Option.some.inj h, String.toList_ofList]

/-- The area is compared with a segment, which holds no separator. -/
theorem appliesTo_iff (hs : f.OneLetter) (ha : f.area ≠ "") : f.appliesTo (f.take path) = true ↔
    startsWith (f.area ++ f.separator) path = true ∧ contains f.separator f.area = false := by
  constructor
  · intro h
    obtain ⟨ds, n, hsplit⟩ := splitOn_of_appliesTo hs ha h
    obtain ⟨hsep, hpath⟩ := (splitOn_eq_iff hs.ne_nil).mp hsplit
    constructor
    · rw [startsWith_iff, String.toList_append, ← hpath, List.cons_append,
        intercalate_cons (List.concat_ne_nil n ds)]
      exact List.prefix_append _ _
    · rw [contains_eq_false_iff]
      exact (hs.separates_iff.mp hsep).2 _ (List.mem_append_left [n] List.mem_cons_self)
  · rintro ⟨hstarts, hfree⟩
    obtain ⟨ds, n, hsplit⟩ := splitOn_of_startsWith hs hfree hstarts
    exact appliesTo_of_splitOn hs hsplit

theorem flatten_of_outside (h : f.appliesTo (f.take path) = false) :
    f.flatten path = .ok (f.put (f.take path)) := by
  rw [flatten, forward, h]
  rfl

theorem flatten_of_not_appliesTo (h : f.appliesTo (f.take path) = false)
    (hflat : f.flatten path = .ok flat) : flat = f.put (f.take path) :=
  Except.ok.inj (hflat.symm.trans (flatten_of_outside h))

structure Confuses (f : Flattening) (p q : String) : Prop where
  first : f.appliesTo (f.take p) = true
  second : f.appliesTo (f.take q) = true
  joined : f.token.toList.intercalate (f.below p) = f.token.toList.intercalate (f.below q)

theorem flatten_of_appliesTo (hs : f.OneLetter) (ha : f.area ≠ "")
    (h : f.appliesTo (f.take p) = true) (hx : f.flatten p = .ok x) :
    x.toList = f.area.toList ++ f.separator.toList ++ f.token.toList.intercalate (f.below p) := by
  obtain ⟨ds, n, hsplit⟩ := splitOn_of_appliesTo hs ha h
  rw [flatten_of_splitOn hs ha hsplit hx, below, hsplit]
  rfl

/-- What is flattened behind the area lies below it, so a path that stays outside is another one. -/
theorem flatten_ne_of_outside (hs : f.OneLetter) (ha : f.area ≠ "")
    (hp : f.appliesTo (f.take p) = true) (hq : ¬ f.appliesTo (f.take q) = true)
    (hx : f.flatten p = .ok x) : x ≠ q := by
  rintro rfl
  have hstarts : startsWith (f.area ++ f.separator) x = true := by
    rw [startsWith_iff, String.toList_append]
    exact ⟨_, (flatten_of_appliesTo hs ha hp hx).symm⟩
  exact hq ((appliesTo_iff hs ha).mpr ⟨hstarts, ((appliesTo_iff hs ha).mp hp).2⟩)

/-- Two paths are flattened to one exactly when they are the same or the flattening confuses them. -/
theorem flatten_eq_iff (hs : f.OneLetter) (ha : f.area ≠ "")
    (hp : ¬ f.separator.toList <+: p.toList) (hq : ¬ f.separator.toList <+: q.toList)
    (hx : f.flatten p = .ok x) (hy : f.flatten q = .ok y) : x = y ↔ p = q ∨ f.Confuses p q := by
  -- outside the area a path is its own flattened form
  have hstays {s t : String} (hst : ¬ f.separator.toList <+: s.toList)
      (hout : ¬ f.appliesTo (f.take s) = true) (ht : f.flatten s = .ok t) : t = s := by
    rw [Bool.not_eq_true] at hout
    exact (flatten_of_not_appliesTo hout ht).trans (put_take hs hst)
  by_cases hfirst : f.appliesTo (f.take p) = true
  · by_cases hsecond : f.appliesTo (f.take q) = true
    · have hjoined : x = y ↔
          f.token.toList.intercalate (f.below p) = f.token.toList.intercalate (f.below q) := by
        rw [← String.toList_inj, flatten_of_appliesTo hs ha hfirst hx,
          flatten_of_appliesTo hs ha hsecond hy, List.append_cancel_left_eq]
      rw [hjoined]
      constructor
      · exact fun h => .inr ⟨hfirst, hsecond, h⟩
      · rintro (rfl | h)
        · rfl
        · exact h.joined
    · obtain rfl := hstays hq hsecond hy
      apply iff_of_false (flatten_ne_of_outside hs ha hfirst hsecond hx)
      rintro (rfl | h)
      · exact hsecond hfirst
      · exact hsecond h.second
  · obtain rfl := hstays hp hfirst hx
    by_cases hsecond : f.appliesTo (f.take q) = true
    · apply iff_of_false (flatten_ne_of_outside hs ha hsecond hfirst hy).symm
      rintro (rfl | h)
      · exact hfirst hsecond
      · exact hfirst h.first
    · obtain rfl := hstays hq hsecond hy
      constructor
      · exact .inl
      · rintro (h | h)
        · exact h
        · exact absurd h.first hfirst

/-- A flattening whose token separates the segments of two paths does not confuse them. -/
theorem Confuses.eq_of_separable (hs : f.OneLetter) (ha : f.area ≠ "") (ht : f.token ≠ "")
    (h : f.Confuses p q) (hp : f.Separable p) (hq : f.Separable q) : p = q := by
  have hbelow : f.below p = f.below q := by
    have hne : f.token.toList ≠ [] := by simpa using ht
    rw [← splitOn_intercalate hne hp, ← splitOn_intercalate hne hq, h.joined]
  obtain ⟨ds, n, hsp⟩ := splitOn_of_appliesTo hs ha h.first
  obtain ⟨es, m, hsq⟩ := splitOn_of_appliesTo hs ha h.second
  have hsame : splitOn f.separator.toList p.toList = splitOn f.separator.toList q.toList := by
    rw [below, below, hsp, hsq] at hbelow
    rw [hsp, hsq]
    exact congrArg (f.area.toList :: ·) hbelow
  rw [← String.toList_inj, ← (separates_splitOn hs.ne_nil p.toList).2, hsame]
  exact (separates_splitOn hs.ne_nil q.toList).2

end Flattening

end ChunkBuild.Source
