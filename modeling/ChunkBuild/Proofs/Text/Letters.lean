import ChunkBuild.Proofs.Text.Occurrence
import ChunkBuild.Proofs.Text.Whole
/-! # Letters between texts

A text that writes code points is made of whole letters: it begins with no index and ends with no mark.
So a letter that it does not hold is a barrier for it, also one that is a pair. -/
namespace ChunkBuild.Text

variable {s : String} {pat sep u v : List Char} {ps : List (List Char)} {c m i : Char}

def IsWritten (s : String) : Prop := ∃ ns, (∀ n ∈ ns, n < 0x110000) ∧ s.toList = ofPoints ns

theorem IsWhole.isWritten (h : IsWhole s) : IsWritten s := by
  obtain ⟨ns, ha, hs⟩ := h
  exact ⟨ns, ha.bounded, hs⟩

theorem IsWritten.head_not_index (h : IsWritten s) (hs : s.toList = c :: u) :
    isIndex c = false := by
  obtain ⟨ns, hb, hns⟩ := h
  rw [hs] at hns
  cases ns with
  | nil => cases hns
  | cons n ns =>
    rw [ofPoints, List.flatMap_cons] at hns
    rcases charsOf_shape (hb n List.mem_cons_self) with ⟨x, hx, -, hindex⟩ | ⟨x, y, hx, hmark, -⟩
    · rw [hx] at hns
      rw [(List.cons.inj hns).1]
      exact hindex
    · rw [hx] at hns
      rw [(List.cons.inj hns).1]
      simp only [isMark, Bool.and_eq_true, decide_eq_true_eq] at hmark
      simp only [isIndex, decide_eq_false_iff_not]
      omega

theorem IsWritten.last_not_mark (h : IsWritten s) (hs : s.toList = u ++ [c]) :
    isMark c = false := by
  obtain ⟨ns, hb, hns⟩ := h
  rw [hs] at hns
  rcases ns.eq_nil_or_concat with rfl | ⟨before, n, rfl⟩
  · exact absurd hns (List.concat_ne_nil c u)
  · rw [List.concat_eq_append] at hb hns
    rw [ofPoints, List.flatMap_append, List.flatMap_singleton] at hns
    rcases charsOf_shape (hb n List.mem_concat_self) with ⟨x, hx, hmark, -⟩ | ⟨x, y, hx, -, hindex⟩
    · rw [hx] at hns
      rw [List.singleton_inj.mp (List.append_inj' hns rfl).2]
      exact hmark
    · have hlast : u ++ [c] = (ofPoints before ++ [x]) ++ [y] := by
        rw [hns, hx, List.append_assoc]
        rfl
      rw [List.singleton_inj.mp (List.append_inj' hlast rfl).2]
      simp only [isIndex, decide_eq_true_eq] at hindex
      simp only [isMark, Bool.and_eq_false_iff, decide_eq_false_iff_not]
      omega

/-- A written text in front of a pair ends before its mark. -/
theorem IsWritten.prefix_of_pair (h : IsWritten s) (hm : isMark m = true)
    (hfree : ¬ [m, i] <:+: s.toList) (hp : s.toList <+: u ++ m :: i :: v) : s.toList <+: u := by
  have hu : u ++ [m] <+: u ++ m :: i :: v := ⟨i :: v, by simp⟩
  have hlast {w : List Char} : s.toList ≠ w ++ [m] := fun hw =>
    absurd (hm.symm.trans (h.last_not_mark hw)) (by decide)
  rcases List.prefix_or_prefix_of_prefix hp hu with hin | hin
  · rcases List.prefix_concat_iff.mp hin with hin | hin
    · exact absurd hin hlast
    · exact hin
  · obtain ⟨t, ht⟩ := hin
    rw [← ht, List.append_assoc, List.prefix_append_right_inj, List.singleton_append,
      List.cons_prefix_cons] at hp
    cases t with
    | nil => exact absurd ((List.append_nil _).symm.trans ht).symm hlast
    | cons x t =>
      obtain rfl : x = i := (List.cons_prefix_cons.mp hp.2).1
      refine absurd ⟨u, t, ?_⟩ hfree
      rw [← ht, List.append_assoc, List.append_assoc]
      rfl

theorem IsWritten.infix_pair_iff (h : IsWritten s) (hne : s ≠ "") (hm : isMark m = true)
    (hi : isIndex i = true) (hfree : ¬ [m, i] <:+: s.toList) :
    s.toList <:+: u ++ m :: i :: v ↔ s.toList <:+: u ∨ s.toList <:+: v := by
  have hnil : s.toList ≠ [] := by simpa using hne
  induction u with
  | nil =>
    have hpair : ¬ s.toList <+: m :: i :: v := fun hp =>
      hnil (List.prefix_nil.mp (h.prefix_of_pair (u := []) hm hfree hp))
    have hindex : ¬ s.toList <+: i :: v := by
      obtain ⟨x, r, hx⟩ := List.exists_cons_of_ne_nil hnil
      rw [hx, List.cons_prefix_cons]
      rintro ⟨rfl, -⟩
      exact absurd (hi.symm.trans (h.head_not_index hx)) (by decide)
    rw [List.nil_append, List.infix_cons_iff, or_iff_right hpair, List.infix_cons_iff,
      or_iff_right hindex, List.infix_nil, or_iff_right hnil]
  | cons d u ih =>
    have hstart : s.toList <+: d :: u ++ m :: i :: v ↔ s.toList <+: d :: u :=
      ⟨h.prefix_of_pair hm hfree, fun hp => hp.trans (List.prefix_append _ _)⟩
    rw [List.cons_append] at hstart ⊢
    rw [List.infix_cons_iff, List.infix_cons_iff, or_assoc]
    exact or_congr hstart ih

/-- A written text lies on one side of a letter that it does not hold. -/
theorem IsWritten.infix_letter_iff (h : IsWritten s) (hne : s ≠ "")
    (hsep : (letters sep).length = 1) (hfree : ¬ sep <:+: s.toList) :
    s.toList <:+: u ++ sep ++ v ↔ s.toList <:+: u ∨ s.toList <:+: v := by
  rcases letter_cases hsep with ⟨c, rfl⟩ | ⟨m, i, rfl, hm, hi⟩
  · have hnil : s.toList ≠ [] := by simpa using hne
    rw [List.append_assoc, List.singleton_append]
    exact infix_append_cons_iff hnil (by rwa [List.singleton_infix_iff] at hfree)
  · rw [List.append_assoc]
    exact h.infix_pair_iff hne hm hi hfree

theorem IsWritten.infix_intercalate_iff (h : IsWritten s) (hne : s ≠ "")
    (hsep : (letters sep).length = 1) (hfree : ¬ sep <:+: s.toList) :
    s.toList <:+: sep.intercalate ps ↔ ∃ p ∈ ps, s.toList <:+: p := by
  induction ps with
  | nil => simpa [List.intercalate] using hne
  | cons p ps ih =>
    by_cases hps : ps = []
    · rw [hps, List.intercalate_singleton]
      simp
    · rw [intercalate_cons hps, h.infix_letter_iff hne hsep hfree, ih]
      simp

/-- Putting a letter for a written text leaves no place where the text could be found again. -/
theorem IsWritten.absent_replaceAll (h : IsWritten s) (hne : s ≠ "")
    (hsep : (letters sep).length = 1) (hfree : ¬ sep <:+: s.toList) (cs : List Char) :
    ¬ s.toList <:+: replaceAll s.toList sep cs := by
  have hnil : s.toList ≠ [] := by simpa using hne
  rw [replaceAll_eq_intercalate, h.infix_intercalate_iff hne hsep hfree]
  rintro ⟨p, hp, hin⟩
  exact (separates_splitOn hnil cs).1.absent hnil p hp hin

end ChunkBuild.Text
