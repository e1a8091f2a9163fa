import ChunkBuild.Proofs.Text.Pieces
/-! # Where a pattern occurs

A letter that is not part of a pattern is a barrier: an occurrence lies on one side of it. So a text that
is put together from parts with barriers between them holds the pattern where a part does. -/
namespace ChunkBuild.Text

variable {pat p u v : List Char} {ps : List (List Char)} {c x : Char}

/-! ## Parts of a text -/

theorem infix_intercalate_of_mem (pat : List Char) (hu : u ∈ ps) : u <:+: pat.intercalate ps := by
  induction ps with
  | nil => cases hu
  | cons q ps ih =>
    rcases List.mem_cons.mp hu with rfl | hu
    · exact (prefix_intercalate pat u ps).isInfix
    · rw [intercalate_cons (List.ne_nil_of_mem hu)]
      exact (ih hu).trans (List.suffix_append _ _).isInfix

theorem notMem_of_mem_split {sep x s : String} (hs : sep.toList = [c]) (hx : x ∈ split sep s) :
    c ∉ x.toList := by
  have hpieces := (separates_splitOn (hs ▸ List.cons_ne_nil c []) s.toList).1
  rw [hs, separates_letter_iff, ← hs, ← map_toList_split] at hpieces
  exact hpieces.2 x.toList (List.mem_map_of_mem hx)

theorem infix_of_mem_split {sep x s : String} (hs : sep.toList ≠ []) (hx : x ∈ split sep s) :
    x.toList <:+: s.toList := by
  rw [← join_split hs s, toList_join]
  exact infix_intercalate_of_mem _ (List.mem_map_of_mem hx)

theorem split_ne_nil (sep s : String) : split sep s ≠ [] := by
  rw [split, Ne, List.map_eq_nil_iff]
  exact splitFrom_ne_nil _ _ 0

theorem prefix_append_cons_iff (hc : c ∉ pat) : pat <+: u ++ c :: v ↔ pat <+: u := by
  constructor
  · intro h
    have hu : u ++ [c] <+: u ++ c :: v := ⟨v, (List.append_cons u c v).symm⟩
    rcases List.prefix_or_prefix_of_prefix h hu with h | h
    · rcases List.prefix_concat_iff.mp h with rfl | h
      · exact absurd List.mem_concat_self hc
      · exact h
    · exact absurd (h.subset List.mem_concat_self) hc
  · exact fun h => h.trans (List.prefix_append u _)

/-- An occurrence lies on one side of a letter that the pattern does not hold. -/
theorem infix_append_cons_iff (hp : pat ≠ []) (hc : c ∉ pat) :
    pat <:+: u ++ c :: v ↔ pat <:+: u ∨ pat <:+: v := by
  induction u with
  | nil =>
    have hno : ¬ pat <+: c :: v := by
      have hnil := prefix_append_cons_iff (u := []) (v := v) hc
      rw [List.nil_append, List.prefix_nil] at hnil
      exact fun h => hp (hnil.mp h)
    rw [List.nil_append, List.infix_cons_iff, or_iff_right hno, List.infix_nil, or_iff_right hp]
  | cons d u ih =>
    rw [List.cons_append, List.infix_cons_iff, ih, ← List.cons_append, prefix_append_cons_iff hc,
      List.infix_cons_iff, or_assoc]

/-- Where the first letter of a pattern is absent no occurrence begins. -/
theorem infix_append_iff_of_head (hx : x ∉ u) : x :: p <:+: u ++ v ↔ x :: p <:+: v := by
  induction u with
  | nil => rfl
  | cons d u ih =>
    rw [List.mem_cons, not_or] at hx
    have hno : ¬ x :: p <+: d :: (u ++ v) := fun h => hx.1 (List.cons_prefix_cons.mp h).1
    rw [List.cons_append, List.infix_cons_iff, or_iff_right hno, ih hx.2]

/-- Where the last letter of a pattern is absent no occurrence ends. -/
theorem infix_append_iff_of_last (hx : x ∉ v) : p ++ [x] <:+: u ++ v ↔ p ++ [x] <:+: u := by
  have hlast : (p ++ [x]).reverse = x :: p.reverse := List.reverse_concat
  have hfree : x ∉ v.reverse := by rwa [List.mem_reverse]
  calc p ++ [x] <:+: u ++ v
      ↔ (p ++ [x]).reverse <:+: (u ++ v).reverse := List.reverse_infix.symm
    _ ↔ (p ++ [x]).reverse <:+: u.reverse := by
        rw [hlast, List.reverse_append, infix_append_iff_of_head hfree]
    _ ↔ p ++ [x] <:+: u := List.reverse_infix

theorem infix_intercalate_iff {sep : List Char} (hc : c ∉ x :: p) (hx : x ∉ sep) :
    x :: p <:+: (c :: sep).intercalate ps ↔ ∃ u ∈ ps, x :: p <:+: u := by
  constructor
  · intro h
    induction ps with
    | nil => exact absurd (List.infix_nil.mp h) (List.cons_ne_nil x p)
    | cons u ps ih =>
      by_cases hps : ps = []
      · rw [hps, List.intercalate_singleton] at h
        exact ⟨u, List.mem_cons_self, h⟩
      · rw [intercalate_cons hps, List.append_assoc, List.cons_append,
          infix_append_cons_iff (List.cons_ne_nil x p) hc, infix_append_iff_of_head hx] at h
        rcases h with h | h
        · exact ⟨u, List.mem_cons_self, h⟩
        · obtain ⟨w, hw, h⟩ := ih h
          exact ⟨w, List.mem_cons_of_mem u hw, h⟩
  · rintro ⟨u, hu, h⟩
    exact h.trans (infix_intercalate_of_mem _ hu)

/-! ## How often a pattern occurs -/

/-- The number of occurrences of a pattern, counted from the left without overlaps. -/
def occurrences (pat s : String) : Nat := (split pat s).length - 1

theorem clear_concat (hc : c ∉ pat) (h : ¬ pat <:+: u) : Clear pat (u ++ [c]) := by
  intro t ht hne hpat
  obtain ⟨s, rfl, hs⟩ : ∃ s, t = s ++ [c] ∧ s <:+ u := by
    rcases List.suffix_concat_iff.mp ht with rfl | ⟨s, rfl, hs⟩
    · exact absurd rfl hne
    · exact ⟨s, rfl, hs⟩
  rw [List.append_assoc, List.singleton_append, prefix_append_cons_iff hc] at hpat
  exact h (hpat.isInfix.trans hs.isInfix)

theorem two_le_length_splitOn (hp : pat ≠ []) (h : pat <:+: u) : 2 ≤ (splitOn pat u).length := by
  obtain ⟨a, b, rfl, ha⟩ := exists_clear h
  rw [splitOn_append hp ha, List.length_cons]
  exact Nat.succ_le_succ (List.length_pos_iff.mpr (splitFrom_ne_nil pat b 0))

/-- Behind a barrier, with nothing of it before or after, a pattern cuts a text in two. -/
theorem splitOn_of_single (hp : pat ≠ []) (hc : c ∉ pat) (hu : ¬ pat <:+: u) (hv : ¬ pat <:+: v) :
    splitOn pat (u ++ [c] ++ pat ++ v) = [u ++ [c], v] := by
  rw [splitOn_append hp (clear_concat hc hu), splitOn_of_absent hv]

theorem length_splitOn_eq_two_iff (hp : pat ≠ []) (hc : c ∉ pat) (hv : ¬ pat <:+: v) :
    (splitOn pat (u ++ [c] ++ pat ++ v)).length = 2 ↔ ¬ pat <:+: u := by
  constructor
  · intro h hu
    obtain ⟨a, b, rfl, ha⟩ := exists_clear hu
    have hrest : pat <:+: b ++ [c] ++ pat ++ v := by
      rw [List.append_assoc]
      exact (List.prefix_append pat v).isInfix.trans (List.suffix_append _ _).isInfix
    have hlength := two_le_length_splitOn hp hrest
    rw [show a ++ pat ++ b ++ [c] ++ pat ++ v = a ++ pat ++ (b ++ [c] ++ pat ++ v) by
      simp only [List.append_assoc], splitOn_append hp ha, List.length_cons] at h
    omega
  · intro h
    rw [splitOn_of_single hp hc h hv]
    rfl

variable {p above below : String}

theorem occurrences_eq_one_iff (hp : p.toList ≠ []) (hfeed : '\n' ∉ p.toList)
    (hbelow : ¬ p.toList <:+: below.toList) :
    occurrences p (above ++ "\n" ++ p ++ below) = 1 ↔ ¬ p.toList <:+: above.toList := by
  have htext : (above ++ "\n" ++ p ++ below).toList =
      above.toList ++ ['\n'] ++ p.toList ++ below.toList := by
    simp only [String.toList_append]
    rfl
  rw [← length_splitOn_eq_two_iff hp hfeed hbelow, ← htext, occurrences, split, List.length_map]
  omega

theorem replace_of_single (hp : p.toList ≠ []) (hfeed : '\n' ∉ p.toList)
    (habove : ¬ p.toList <:+: above.toList) (hbelow : ¬ p.toList <:+: below.toList) (new : String) :
    replace p new (above ++ "\n" ++ p ++ below) = above ++ "\n" ++ new ++ below := by
  have hfeeds : "\n".toList = ['\n'] := rfl
  rw [← String.toList_inj, replace, String.toList_ofList]
  simp only [String.toList_append]
  rw [hfeeds, replaceAll_eq_intercalate, splitOn_of_single hp hfeed habove hbelow]
  rw [intercalate_cons (List.cons_ne_nil _ _), List.intercalate_singleton]

end ChunkBuild.Text
