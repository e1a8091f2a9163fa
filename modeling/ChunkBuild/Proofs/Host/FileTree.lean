import ChunkBuild.Host.FileTree
/-! # What file trees hold

Writing at one place leaves all others as they were. Following a path looks at directories only, so a
path leads to the same place as long as they stand. -/
namespace ChunkBuild.FileTree

open ChunkBuild.Text

variable {t u : FileTree} {loc here : Location} {e : Entry}

@[simp] theorem at?_nil : t.at? [] = some .directory := rfl

theorem at?_eq_find (h : loc ≠ []) : t.at? loc = (t.find? (·.1 = loc)).map (·.2) := by
  rw [at?, if_neg]
  simpa using h

theorem find_put_self : (put t loc e).find? (·.1 = loc) = some (loc, e) := by
  induction t with
  | nil => simp [put]
  | cons x r ih =>
    obtain ⟨l, old⟩ := x
    by_cases h : l = loc
    · simp [put, h]
    · simp [put, h, ih]

theorem find_put_of_ne {other : Location} (hne : loc ≠ other) :
    (put t loc e).find? (·.1 = other) = t.find? (·.1 = other) := by
  induction t with
  | nil => simp [put, hne]
  | cons x r ih =>
    obtain ⟨l, old⟩ := x
    by_cases h : l = loc
    · subst h
      simp [put, hne]
    · simp only [put, if_neg h, List.find?_cons, ih]

theorem at?_put_self (h : loc ≠ []) : (t.put loc e).at? loc = some e := by
  rw [at?_eq_find h, find_put_self]
  rfl

theorem at?_put_of_ne {other : Location} (hne : loc ≠ other) :
    (t.put loc e).at? other = t.at? other := by
  by_cases h : other = []
  · subst h
    rfl
  · rw [at?_eq_find h, at?_eq_find h, find_put_of_ne hne]

/-! ## Following paths -/

/-- A walk through one tree is one through another that has the same directories, as far as the places
in question go. -/
theorem walk_of_agrees {P : Location → Prop} (hup : ∀ l, P l → P l.dropLast)
    (hdown : ∀ l name, P l → t.at? (l ++ [name]) = some .directory →
      P (l ++ [name]) ∧ u.at? (l ++ [name]) = some .directory)
    {names : List String} (hh : P here) (hw : t.walk here names = .ok loc) :
    u.walk here names = .ok loc ∧ P loc.dropLast := by
  fun_induction walk t here names with
  | case1 here =>
    cases hw
    exact ⟨rfl, hup _ hh⟩
  | case2 here name hn =>
    cases hw
    exact ⟨by rw [walk, if_pos hn], hup _ hh⟩
  | case3 here hn =>
    cases hw
    exact ⟨by rw [walk, if_neg hn, if_pos rfl], hup _ (hup here hh)⟩
  | case4 here name hn hd =>
    refine ⟨by rw [walk, if_neg hn, if_neg hd, hw], ?_⟩
    unfold entered at hw
    split at hw
    · cases hw
    · cases hw
      rwa [List.dropLast_concat]
  | case5 here name next r hn ih =>
    obtain ⟨hu, hl⟩ := ih hh hw
    exact ⟨by rw [walk, if_pos hn, hu], hl⟩
  | case6 here next r hn ih =>
    obtain ⟨hu, hl⟩ := ih (hup here hh) hw
    exact ⟨by rw [walk, if_neg hn, if_pos rfl, hu], hl⟩
  | case7 => cases hw
  | case8 => cases hw
  | case9 => cases hw
  | case10 here name next r hn hd l he hat ih =>
    have hl : l = here ++ [systemText name] := by
      unfold entered at he
      split at he
      · cases he
      · exact (Except.ok.inj he).symm
    subst hl
    obtain ⟨hP, hdir⟩ := hdown here _ hh hat
    obtain ⟨hu, hl⟩ := ih hP hw
    refine ⟨?_, hl⟩
    rw [walk, if_neg hn, if_neg hd, he]
    simp only [hdir]
    exact hu

/-- Where a path leads is a matter of its names alone. -/
theorem walk_unique {names : List String} {other : Location} (hw : t.walk here names = .ok loc)
    (hv : u.walk here names = .ok other) : loc = other := by
  fun_induction walk t here names with
  | case1 => exact Except.ok.inj (hw.symm.trans hv)
  | case2 here name hn =>
    rw [walk, if_pos hn] at hv
    exact Except.ok.inj (hw.symm.trans hv)
  | case3 here hn =>
    rw [walk, if_neg hn, if_pos rfl] at hv
    exact Except.ok.inj (hw.symm.trans hv)
  | case4 here name hn hd =>
    rw [walk, if_neg hn, if_neg hd] at hv
    exact Except.ok.inj (hw.symm.trans hv)
  | case5 here name next r hn ih =>
    rw [walk, if_pos hn] at hv
    exact ih hw hv
  | case6 here next r hn ih =>
    rw [walk, if_neg hn, if_pos rfl] at hv
    exact ih hw hv
  | case7 => cases hw
  | case8 => cases hw
  | case9 => cases hw
  | case10 here name next r hn hd l he hat ih =>
    rw [walk, if_neg hn, if_neg hd, he] at hv
    dsimp only at hv
    split at hv
    · cases hv
    · cases hv
    · exact ih hw hv

/-- A walk enters the last name, unless that leads elsewhere. -/
theorem getLast?_of_walk {names : List String} {name : String} (he : name.isEmpty = false)
    (hdot : name ≠ ".") (hup : name ≠ "..") (hw : t.walk here (names ++ [name]) = .ok loc) :
    loc.getLast? = some (systemText name) := by
  induction names generalizing here with
  | nil =>
    rw [List.nil_append, walk, if_neg (by simp [he, hdot]), if_neg hup, entered] at hw
    split at hw
    · cases hw
    · cases hw
      exact List.getLast?_concat
  | cons first names ih =>
    obtain ⟨next, r, hr⟩ := List.exists_cons_of_ne_nil
      (List.append_ne_nil_of_right_ne_nil names (List.cons_ne_nil name []))
    rw [hr] at ih
    rw [List.cons_append, hr, walk] at hw
    split at hw
    · exact ih hw
    split at hw
    · exact ih hw
    split at hw
    · cases hw
    split at hw
    · cases hw
    · cases hw
    · exact ih hw

def KeepsDirectories (t u : FileTree) : Prop :=
  ∀ loc, t.at? loc = some .directory → u.at? loc = some .directory

theorem keepsDirectories_put (h : t.at? loc ≠ some .directory) :
    KeepsDirectories t (t.put loc e) := by
  intro other ho
  have hne : loc ≠ other := by
    rintro rfl
    exact h ho
  rw [at?_put_of_ne hne, ho]

theorem walk_of_keepsDirectories (h : KeepsDirectories t u) {names : List String}
    (hw : t.walk here names = .ok loc) : u.walk here names = .ok loc := by
  refine (walk_of_agrees (P := fun _ => True) ?_ ?_ trivial hw).1
  · exact fun _ _ => trivial
  · exact fun l name _ hd => ⟨trivial, h _ hd⟩

/-! ## Standing directories -/

/-- A directory that stands with all directories above it. -/
def Stands (t : FileTree) (loc : Location) : Prop := ∀ q, q <+: loc → t.at? q = some .directory

/-- A place in a directory that stands. -/
def Reaches (t : FileTree) (loc : Location) : Prop := t.Stands loc.dropLast

theorem stands_nil : t.Stands [] := by
  intro q hq
  rw [List.prefix_nil.mp hq]
  rfl

theorem Stands.of_prefix {other : Location} (h : t.Stands loc) (ho : other <+: loc) :
    t.Stands other :=
  fun q hq => h q (hq.trans ho)

theorem stands_concat_iff {name : String} :
    t.Stands (loc ++ [name]) ↔ t.Stands loc ∧ t.at? (loc ++ [name]) = some .directory := by
  constructor
  · exact fun h => ⟨h.of_prefix (List.prefix_append loc [name]), h _ List.prefix_rfl⟩
  · rintro ⟨h, hd⟩ q hq
    rcases List.prefix_concat_iff.mp hq with rfl | hq
    · exact hd
    · exact h q hq

theorem reaches_of_walk {names : List String} (hh : t.Stands here)
    (hw : t.walk here names = .ok loc) : t.Reaches loc := by
  refine (walk_of_agrees (u := t) (P := t.Stands) ?_ ?_ hh hw).2
  · exact fun l hl => hl.of_prefix (List.dropLast_prefix l)
  · exact fun l name hl hd => ⟨stands_concat_iff.mpr ⟨hl, hd⟩, hd⟩

theorem walk_of_stands (h : ∀ c, t.Stands c → u.Stands c) {names : List String}
    (hh : t.Stands here) (hw : t.walk here names = .ok loc) : u.walk here names = .ok loc := by
  refine (walk_of_agrees (P := t.Stands) ?_ ?_ hh hw).1
  · exact fun l hl => hl.of_prefix (List.dropLast_prefix l)
  · intro l name hl hd
    have hs := stands_concat_iff.mpr ⟨hl, hd⟩
    exact ⟨hs, h _ hs _ List.prefix_rfl⟩

/-- What stands above a place is a directory, so no file does. -/
theorem Reaches.at_of_prefix {q : Location} (h : t.Reaches loc) (hq : q <+: loc) (hne : q ≠ loc) :
    t.at? q = some .directory := by
  refine h q ?_
  obtain ⟨r, rfl⟩ := hq
  have hr : r ≠ [] := by
    rintro rfl
    exact hne (List.append_nil q).symm
  rw [List.dropLast_append_of_ne_nil hr]
  exact List.prefix_append q _

theorem Reaches.stands_of_directory (h : t.Reaches loc) (hd : t.at? loc = some .directory) :
    t.Stands loc := by
  intro q hq
  by_cases he : q = loc
  · rw [he, hd]
  · exact h.at_of_prefix hq he

/-! ## Moving a file -/

variable {a b c : Location}

theorem find_remove_of_apart (h : ¬ a <+: c) :
    (t.remove a).find? (·.1 = c) = t.find? (·.1 = c) := by
  have hc : a.isPrefixOf c = false := by
    rwa [← Bool.not_eq_true, List.isPrefixOf_iff_prefix]
  rw [remove, List.find?_filter]
  congr 1
  funext x
  by_cases hx : x.1 = c
  · simp [hx, hc]
  · simp [hx]

theorem find_remove_of_prefix (h : a <+: c) : (t.remove a).find? (·.1 = c) = none := by
  rw [List.find?_eq_none]
  intro x hx
  have hp : (!a.isPrefixOf x.1) = true := (List.mem_filter.mp hx).2
  simp only [decide_eq_true_eq]
  rintro rfl
  simp [List.isPrefixOf_iff_prefix.mpr h] at hp

theorem find_graft_of_apart (h : ¬ b <+: c) : (graft b t).find? (·.1 = c) = none := by
  rw [List.find?_eq_none]
  intro x hx
  obtain ⟨y, -, rfl⟩ := List.mem_map.mp hx
  simp only [decide_eq_true_eq]
  rintro rfl
  exact h (List.prefix_append b y.1)

/-- What stood at a place stands at the top of what is seen from there. -/
theorem find_graft_self : ((graft b (t.below a)).find? (·.1 = b)).map (·.2) =
    (t.find? (·.1 = a)).map (·.2) := by
  induction t with
  | nil => rfl
  | cons x r ih =>
    obtain ⟨l, old⟩ := x
    by_cases hp : a <+: l
    · have hbelow : below ((l, old) :: r) a = (l.drop a.length, old) :: below r a := by
        rw [below, List.filterMap_cons, if_pos (List.isPrefixOf_iff_prefix.mpr hp)]
        rfl
      rw [hbelow]
      obtain ⟨s, rfl⟩ := hp
      rw [List.drop_left, graft, List.map_cons]
      by_cases hs : s = []
      · simp [hs]
      · rw [List.find?_cons_of_neg (by simp [hs]), List.find?_cons_of_neg (by simp [hs])]
        exact ih
    · have hl : a.isPrefixOf l = false := by
        rwa [← Bool.not_eq_true, List.isPrefixOf_iff_prefix]
      have hne : l ≠ a := by
        rintro rfl
        exact hp List.prefix_rfl
      have hbelow : below ((l, old) :: r) a = below r a := by
        rw [below, List.filterMap_cons, hl, if_neg Bool.false_ne_true]
        rfl
      rw [hbelow, List.find?_cons_of_neg (by simp [hne])]
      exact ih

theorem at?_move_target (ha : a ≠ []) (hb : b ≠ []) : (t.move a b).at? b = t.at? a := by
  rw [at?_eq_find hb, at?_eq_find ha, move, List.find?_append,
    find_remove_of_prefix List.prefix_rfl, Option.none_or, find_graft_self]

theorem at?_move_source (ha : a ≠ []) (h : ¬ b <+: a) : (t.move a b).at? a = none := by
  rw [at?_eq_find ha, move, List.find?_append, find_remove_of_apart h,
    find_remove_of_prefix List.prefix_rfl, find_graft_of_apart h]
  rfl

theorem at?_move_of_apart (ha : ¬ a <+: c) (hb : ¬ b <+: c) : (t.move a b).at? c = t.at? c := by
  by_cases hc : c = []
  · subst hc
    rfl
  · rw [at?_eq_find hc, at?_eq_find hc, move, List.find?_append, find_remove_of_apart hb,
      find_remove_of_apart ha, find_graft_of_apart hb, Option.or_none]

end ChunkBuild.FileTree
