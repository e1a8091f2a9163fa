import ChunkBuild.Proofs.Text.Utf8
/-! # Texts of characters

A text that is decoded from bytes has no halves: it writes characters only, each by itself or by a pair.
What follows a character that is written by itself is such a text again. -/
namespace ChunkBuild.Text

inductive IsLettered : List Char → Prop where
  | nil : IsLettered []
  | char {c : Char} {s : List Char} : c.toNat < firstMark → IsLettered s → IsLettered (c :: s)
  | pair {n : Nat} {m i : Char} {s : List Char} : charsOf n = [m, i] → n < 0x110000 →
    isHalf n = false → firstMark ≤ m.toNat → firstMark ≤ i.toNat → IsLettered s →
    IsLettered (m :: i :: s)

variable {c : Char} {n : Nat} {s r : List Char}

theorem IsLettered.tail (h : IsLettered (c :: s)) (hc : c.toNat < firstMark) : IsLettered s := by
  cases h with
  | char _ hs => exact hs
  | pair _ _ _ hm _ _ => exact absurd hc (Nat.not_lt.mpr hm)

theorem IsLettered.drop (h : IsLettered (s ++ r)) (hs : ∀ c ∈ s, c.toNat < firstMark) :
    IsLettered r := by
  induction s with
  | nil => exact h
  | cons c s ih =>
    obtain ⟨hc, hs⟩ := List.forall_mem_cons.mp hs
    exact ih (h.tail hc) hs

/-! ## Decoding -/

theorem IsLettered.charsOf_append (hn : n < 0x110000) (hh : isHalf n = false) (hs : IsLettered s) :
    IsLettered (charsOf n ++ s) := by
  have hpair {k i : Nat} (hk : k < 3) (hi : i < 0x800) (he : charsOf n = pairOf k i) :
      IsLettered (charsOf n ++ s) := by
    rw [he]
    refine .pair (n := n) he hn hh ?_ ?_ hs
    · rw [toNat_mark hk]
      exact Nat.le_add_right _ _
    · rw [toNat_index hi]
      exact Nat.le_trans (by decide) (Nat.le_add_right firstIndex i)
  by_cases hindex : firstIndex ≤ n
  · refine hpair (k := 1) (i := n - firstIndex) (by omega) (by unfold firstIndex; omega) ?_
    rw [charsOf, if_neg (by simp [hh]), if_pos hindex]
  · by_cases hmark : firstMark ≤ n
    · refine hpair (k := 2) (i := n - firstMark) (by omega) ?_ ?_
      · unfold firstIndex at hindex
        unfold firstMark
        omega
      · rw [charsOf, if_neg (by simp [hh]), if_neg hindex, if_pos hmark]
    · have hv : n.isValidChar := by
        simp only [isHalf, Bool.and_eq_false_iff, decide_eq_false_iff_not] at hh
        unfold Nat.isValidChar
        omega
      rw [charsOf, if_neg (by simp [hh]), if_neg hindex, if_neg hmark]
      refine .char ?_ hs
      rw [toNat_ofNat hv]
      exact Nat.not_le.mp hmark

theorem isLettered_ofPoints {ns : List Nat} (h : ∀ n ∈ ns, n < 0x110000 ∧ isHalf n = false) :
    IsLettered (ofPoints ns) := by
  induction ns with
  | nil => exact .nil
  | cons n ns ih =>
    obtain ⟨⟨hn, hh⟩, hns⟩ := List.forall_mem_cons.mp h
    exact (ih hns).charsOf_append hn hh

theorem isLettered_of_decodeUtf8 {bytes : Bytes} {text : String} (h : decodeUtf8 bytes = .ok text) :
    IsLettered text.toList := by
  obtain ⟨cs, hcs, rfl⟩ := except_map_eq_ok.mp h
  obtain ⟨ns, hns, -, rfl⟩ := exists_points_of_decodeFrom hcs
  rw [String.toList_ofList]
  exact isLettered_ofPoints hns

end ChunkBuild.Text
