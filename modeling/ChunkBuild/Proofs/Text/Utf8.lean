import ChunkBuild.Text.Utf8
import ChunkBuild.Proofs.Results
import ChunkBuild.Proofs.Text.Whole
/-! # Reading back written bytes

Decoding takes one code point after the other from the bytes that write it. Main statements: a whole
text without halves is read back from its bytes, and the bytes that a text was read from write it. -/
namespace ChunkBuild.Text

variable {n m pos : Nat} {r : Bytes} {p : Pending}

theorem toNat_toUInt8 (h : n < 256) : n.toUInt8.toNat = n := by
  simp only [Nat.toUInt8, UInt8.toNat_ofNat']
  omega

theorem leadingByte_one (h : n < 0x80) : leadingByte n.toUInt8 = some (0, 0, 0, n) := by
  have hlt : n.toUInt8 < 0x80 := by
    rw [UInt8.lt_iff_toNat_lt, toNat_toUInt8 (by omega)]
    exact h
  rw [leadingByte, if_pos hlt, toNat_toUInt8 (by omega)]

theorem leadingByte_two : ∀ k < 0x1E,
    leadingByte (0xC0 + (k + 2)).toUInt8 = some (1, 0x80, 0xBF, k + 2) := by
  decide

/-- The bounds of the second byte keep out what has a shorter form and the halves. -/
theorem leadingByte_three : ∀ k < 0x10, leadingByte (0xE0 + k).toUInt8 =
    some (2, if k = 0 then 0xA0 else 0x80, if k = 0xD then 0x9F else 0xBF, k) := by
  decide

theorem leadingByte_four : ∀ k < 5, leadingByte (0xF0 + k).toUInt8 =
    some (3, if k = 0 then 0x90 else 0x80, if k = 4 then 0x8F else 0xBF, k) := by
  decide

theorem tail_within (hm : m < 0x40) (hlow : p.low.toNat ≤ 0x80 + m)
    (hhigh : 0x80 + m ≤ p.high.toNat) :
    (p.low ≤ (0x80 + m).toUInt8 && (0x80 + m).toUInt8 ≤ p.high) = true := by
  simp only [Bool.and_eq_true, decide_eq_true_eq, UInt8.le_iff_toNat_le]
  rw [toNat_toUInt8 (by omega)]
  exact ⟨hlow, hhigh⟩

/-- The last byte of a character ends it. -/
theorem decodeFrom_last (hm : m < 0x40) (hlow : p.low.toNat ≤ 0x80 + m)
    (hhigh : 0x80 + m ≤ p.high.toNat) (hp : p.missing = 1) :
    decodeFrom pos (some p) ((0x80 + m).toUInt8 :: r) =
      (decodeFrom (pos + 1) none r).map (charsOf (p.bits * 64 + m) ++ ·) := by
  rw [decodeFrom, if_pos (tail_within hm hlow hhigh), hp, if_pos (Nat.le_refl 1),
    toNat_toUInt8 (by omega), Nat.add_sub_cancel_left]

/-- A byte before the last one adds its bits. -/
theorem decodeFrom_more {k : Nat} (hm : m < 0x40) (hlow : p.low.toNat ≤ 0x80 + m)
    (hhigh : 0x80 + m ≤ p.high.toNat) (hp : p.missing = k + 2) :
    decodeFrom pos (some p) ((0x80 + m).toUInt8 :: r) =
      decodeFrom (pos + 1) (some ⟨p.start, p.taken + 1, k + 1, 0x80, 0xBF, p.bits * 64 + m⟩) r := by
  rw [decodeFrom, if_pos (tail_within hm hlow hhigh), hp, if_neg (by omega),
    toNat_toUInt8 (by omega), Nat.add_sub_cancel_left]
  rfl

theorem decodeFrom_pointBytes (hn : n < 0x110000) (hh : isHalf n = false) :
    decodeFrom pos none (pointBytes n ++ r) =
      (decodeFrom (pos + (pointBytes n).length) none r).map (charsOf n ++ ·) := by
  simp only [isHalf, Bool.and_eq_false_iff, decide_eq_false_iff_not] at hh
  unfold pointBytes
  split
  next h =>
    rw [List.singleton_append, decodeFrom, leadingByte_one h]
    rfl
  next h₁ =>
    split
    next h =>
      have he : n / 0x40 * 64 + n / 1 % 0x40 = n := by omega
      obtain ⟨k, hk⟩ : ∃ k, n / 0x40 = k + 2 := ⟨n / 0x40 - 2, by omega⟩
      rw [List.cons_append, List.singleton_append, decodeFrom, hk, leadingByte_two k (by omega),
        ← hk]
      dsimp only
      rw [decodeFrom_last (Nat.mod_lt _ (by omega)) (Nat.le_add_right _ _) (by simp; omega) rfl, he]
      rfl
    next h₂ =>
      split
      next h =>
        have he : (n / 0x1000 * 64 + n / 0x40 % 0x40) * 64 + n / 1 % 0x40 = n := by omega
        simp only [List.cons_append, List.nil_append]
        rw [decodeFrom, leadingByte_three (n / 0x1000) (by omega)]
        dsimp only
        rw [decodeFrom_more (Nat.mod_lt _ (by omega)) ?_ ?_ rfl,
          decodeFrom_last (Nat.mod_lt _ (by omega)) (Nat.le_add_right _ _) (by simp; omega) rfl, he]
        · rfl
        · dsimp only
          split
          · simp only [UInt8.reduceToNat]; omega
          · exact Nat.le_add_right _ _
        · dsimp only
          split <;> simp only [UInt8.reduceToNat] <;> omega
      next h₃ =>
        have he : ((n / 0x40000 * 64 + n / 0x1000 % 0x40) * 64 + n / 0x40 % 0x40) * 64 +
            n / 1 % 0x40 = n := by omega
        simp only [List.cons_append, List.nil_append]
        rw [decodeFrom, leadingByte_four (n / 0x40000) (by omega)]
        dsimp only
        rw [decodeFrom_more (Nat.mod_lt _ (by omega)) ?_ ?_ rfl,
          decodeFrom_more (Nat.mod_lt _ (by omega)) (Nat.le_add_right _ _) (by simp; omega) rfl,
          decodeFrom_last (Nat.mod_lt _ (by omega)) (Nat.le_add_right _ _) (by simp; omega) rfl, he]
        · rfl
        · dsimp only
          split
          · simp only [UInt8.reduceToNat]; omega
          · exact Nat.le_add_right _ _
        · dsimp only
          split <;> simp only [UInt8.reduceToNat] <;> omega

theorem decodeFrom_points {ns : List Nat} (hb : ∀ n ∈ ns, n < 0x110000)
    (hh : ∀ n ∈ ns, isHalf n = false) :
    decodeFrom pos none (ns.flatMap pointBytes) = .ok (ofPoints ns) := by
  induction ns generalizing pos with
  | nil => rfl
  | cons n ns ih =>
    rw [List.flatMap_cons, decodeFrom_pointBytes (hb n (by simp)) (hh n (by simp)),
      ih (fun m hm => hb m (by simp [hm])) (fun m hm => hh m (by simp [hm]))]
    rfl

/-- A whole text without halves is read back from its bytes. -/
theorem decodeUtf8_encodeUtf8 {s : String} (hs : IsWhole s) (hh : hasHalf s = false) :
    decodeUtf8 (encodeUtf8 s) = .ok s := by
  have hnone : ∀ n ∈ points s.toList, isHalf n = false := by
    simpa [hasHalf, List.any_eq_false] using hh
  rw [decodeUtf8, encodeUtf8, decodeFrom_points hs.apart.bounded hnone, hs.ofPoints_points]
  simp [Except.map]

/-! ## Writing what was read -/

/-- What a first byte says: the bits that it gives, and the bounds that keep a character from having a
shorter form or being a half. -/
theorem leadingByte_eq_some {b low high : UInt8} {k bits : Nat}
    (h : leadingByte b = some (k, low, high, bits)) :
    k = 0 ∧ b.toNat = bits ∧ bits < 0x80 ∨
    (0x80 ≤ low.toNat ∧ high.toNat ≤ 0xBF) ∧
      (k = 1 ∧ b.toNat = 0xC0 + bits ∧ 2 ≤ bits ∧ bits < 0x20 ∨
        k = 2 ∧ b.toNat = 0xE0 + bits ∧ bits < 0x10 ∧ (0 < bits ∨ 0xA0 ≤ low.toNat) ∧
          (bits ≠ 0xD ∨ high.toNat ≤ 0x9F) ∨
        k = 3 ∧ b.toNat = 0xF0 + bits ∧ (0 < bits ∨ 0x90 ≤ low.toNat) ∧
          (bits < 4 ∨ bits = 4 ∧ high.toNat ≤ 0x8F)) := by
  unfold leadingByte at h
  simp only [UInt8.lt_iff_toNat_lt, ← UInt8.toNat_inj, UInt8.reduceToNat] at h
  split_ifs at h
  all_goals
    cases h
    simp only [UInt8.reduceToNat, true_and]
    omega

/-- A byte that is read in the middle of a character holds six bits of it. -/
theorem decodeFrom_some_eq_ok {bs : Bytes} {cs : List Char}
    (h : decodeFrom pos (some p) bs = .ok cs) (hlow : 0x80 ≤ p.low.toNat)
    (hhigh : p.high.toNat ≤ 0xBF) : ∃ m r, bs = (0x80 + m).toUInt8 :: r ∧ m < 0x40 ∧
      p.low.toNat ≤ 0x80 + m ∧ 0x80 + m ≤ p.high.toNat ∧
      if p.missing ≤ 1 then
        (decodeFrom (pos + 1) none r).map (charsOf (p.bits * 64 + m) ++ ·) = .ok cs
      else
        decodeFrom (pos + 1)
          (some ⟨p.start, p.taken + 1, p.missing - 1, 0x80, 0xBF, p.bits * 64 + m⟩) r = .ok cs := by
  cases bs with
  | nil => cases h
  | cons b r =>
    rw [decodeFrom] at h
    split at h
    · next hb =>
      simp only [Bool.and_eq_true, decide_eq_true_eq, UInt8.le_iff_toNat_le] at hb
      have hm : 0x80 + (b.toNat - 0x80) = b.toNat := by omega
      refine ⟨b.toNat - 0x80, r, ?_, by omega, by omega, by omega, ?_⟩
      · rw [hm]
        exact congrArg (· :: r) (UInt8.toNat_inj.mp (toNat_toUInt8 b.toNat_lt).symm)
      · dsimp only at h
        split at h
        · next hmissing => rwa [if_pos hmissing]
        · next hmissing => rwa [if_neg hmissing]
    · cases h

theorem pointBytes_two {k m : Nat} (hk : 2 ≤ k) (hk' : k < 0x20) (hm : m < 0x40) :
    pointBytes (k * 64 + m) = [(0xC0 + k).toUInt8, (0x80 + m).toUInt8] := by
  have hfirst : (k * 64 + m) / 0x40 = k := by omega
  have hlast : (k * 64 + m) / 1 % 0x40 = m := by omega
  rw [pointBytes, if_neg (by omega), if_pos (by omega)]
  dsimp only
  rw [hfirst, hlast]

theorem pointBytes_three {k l m : Nat} (hk : 0 < k ∨ 0x20 ≤ l) (hk' : k < 0x10) (hl : l < 0x40)
    (hm : m < 0x40) : pointBytes ((k * 64 + l) * 64 + m) =
      [(0xE0 + k).toUInt8, (0x80 + l).toUInt8, (0x80 + m).toUInt8] := by
  have hfirst : ((k * 64 + l) * 64 + m) / 0x1000 = k := by omega
  have hsecond : ((k * 64 + l) * 64 + m) / 0x40 % 0x40 = l := by omega
  have hlast : ((k * 64 + l) * 64 + m) / 1 % 0x40 = m := by omega
  rw [pointBytes, if_neg (by omega), if_neg (by omega), if_pos (by omega)]
  dsimp only
  rw [hfirst, hsecond, hlast]

theorem pointBytes_four {k j l m : Nat} (hk : 0 < k ∨ 0x10 ≤ j) (hj : j < 0x40) (hl : l < 0x40)
    (hm : m < 0x40) : pointBytes (((k * 64 + j) * 64 + l) * 64 + m) =
      [(0xF0 + k).toUInt8, (0x80 + j).toUInt8, (0x80 + l).toUInt8, (0x80 + m).toUInt8] := by
  have hfirst : (((k * 64 + j) * 64 + l) * 64 + m) / 0x40000 = k := by omega
  have hsecond : (((k * 64 + j) * 64 + l) * 64 + m) / 0x1000 % 0x40 = j := by omega
  have hthird : (((k * 64 + j) * 64 + l) * 64 + m) / 0x40 % 0x40 = l := by omega
  have hlast : (((k * 64 + j) * 64 + l) * 64 + m) / 1 % 0x40 = m := by omega
  rw [pointBytes, if_neg (by omega), if_neg (by omega), if_neg (by omega)]
  dsimp only
  rw [hfirst, hsecond, hthird, hlast]

theorem byte_eq_toUInt8 {b : UInt8} (h : b.toNat = n) : b = n.toUInt8 := by
  subst h
  exact UInt8.toNat_inj.mp (toNat_toUInt8 b.toNat_lt).symm

/-- What is read begins with the bytes of one code point, which is no half. -/
theorem exists_point_of_decodeFrom {b : UInt8} {cs : List Char}
    (h : decodeFrom pos none (b :: r) = .ok cs) : ∃ n rest next ds,
      (n < 0x110000 ∧ (n < 0xD800 ∨ 0xE000 ≤ n)) ∧
      b :: r = pointBytes n ++ rest ∧ decodeFrom next none rest = .ok ds ∧ cs = charsOf n ++ ds := by
  rw [decodeFrom] at h
  split at h
  · cases h
  · next low high bits hlead =>
    obtain ⟨ds, hds, hcs⟩ := except_map_eq_ok.mp h
    rcases leadingByte_eq_some hlead with ⟨-, hb, hlt⟩ | ⟨-, hk | hk | hk⟩
    · refine ⟨bits, r, _, ds, by omega, ?_, hds, hcs.symm⟩
      rw [pointBytes, if_pos hlt, byte_eq_toUInt8 hb]
      rfl
    · omega
    · omega
    · omega
  · next k low high bits hlead =>
    rcases leadingByte_eq_some hlead with ⟨hk, -⟩ | ⟨⟨hlow, hhigh⟩, hcase⟩
    · omega
    obtain ⟨m₁, r₁, rfl, hm₁, hge, hle, h⟩ := decodeFrom_some_eq_ok h hlow hhigh
    dsimp only at hge hle h
    rcases hcase with ⟨hk, hb, hbits⟩ | ⟨hk, hb, hbits⟩ | ⟨hk, hb, hbits⟩
    · rw [if_pos (by omega)] at h
      obtain ⟨ds, hds, hcs⟩ := except_map_eq_ok.mp h
      refine ⟨_, r₁, _, ds, ?_, ?_, hds, hcs.symm⟩
      · omega
      · rw [pointBytes_two hbits.1 hbits.2 hm₁, byte_eq_toUInt8 hb]
        rfl
    · rw [if_neg (by omega)] at h
      obtain ⟨m₂, r₂, rfl, hm₂, -, -, h⟩ := decodeFrom_some_eq_ok h (Nat.le_refl _) (Nat.le_refl _)
      dsimp only at h
      rw [if_pos (by omega)] at h
      obtain ⟨ds, hds, hcs⟩ := except_map_eq_ok.mp h
      refine ⟨_, r₂, _, ds, ?_, ?_, hds, hcs.symm⟩
      · omega
      · rw [pointBytes_three (by omega) hbits.1 hm₁ hm₂, byte_eq_toUInt8 hb]
        rfl
    · rw [if_neg (by omega)] at h
      obtain ⟨m₂, r₂, rfl, hm₂, -, -, h⟩ := decodeFrom_some_eq_ok h (Nat.le_refl _) (Nat.le_refl _)
      dsimp only at h
      rw [if_neg (by omega)] at h
      obtain ⟨m₃, r₃, rfl, hm₃, -, -, h⟩ := decodeFrom_some_eq_ok h (Nat.le_refl _) (Nat.le_refl _)
      dsimp only at h
      rw [if_pos (by omega)] at h
      obtain ⟨ds, hds, hcs⟩ := except_map_eq_ok.mp h
      refine ⟨_, r₃, _, ds, ?_, ?_, hds, hcs.symm⟩
      · omega
      · rw [pointBytes_four (by omega) hm₁ hm₂ hm₃, byte_eq_toUInt8 hb]
        rfl

theorem pointBytes_ne_nil : pointBytes n ≠ [] := by
  unfold pointBytes
  split
  · exact List.cons_ne_nil _ _
  split
  · exact List.cons_ne_nil _ _
  split
  · exact List.cons_ne_nil _ _
  · exact List.cons_ne_nil _ _

/-- Decoded bytes write code points, none of them a half. -/
theorem exists_points_of_decodeFrom {bs : Bytes} {cs : List Char}
    (h : decodeFrom pos none bs = .ok cs) : ∃ ns : List Nat,
      (∀ n ∈ ns, n < 0x110000 ∧ isHalf n = false) ∧ ns.flatMap pointBytes = bs ∧ cs = ofPoints ns := by
  -- on the length: each code point takes one byte at least
  induction hl : bs.length using Nat.strong_induction_on generalizing pos bs cs with
  | h l ih =>
    cases bs with
    | nil =>
      cases h
      exact ⟨[], (fun _ hn => nomatch hn), rfl, rfl⟩
    | cons b r =>
      obtain ⟨n, rest, next, ds, ⟨hn, hwhole⟩, hbytes, hds, rfl⟩ := exists_point_of_decodeFrom h
      have hshort : rest.length < l := by
        have hlength := congrArg List.length hbytes
        have hpos : 0 < (pointBytes n).length := List.length_pos_iff.mpr pointBytes_ne_nil
        rw [List.length_append] at hlength
        omega
      have hhalf : isHalf n = false := by
        simp only [isHalf, Bool.and_eq_false_iff, decide_eq_false_iff_not]
        omega
      obtain ⟨ns, hns, hrest, rfl⟩ := ih _ hshort hds rfl
      exact ⟨n :: ns, List.forall_mem_cons.mpr ⟨⟨hn, hhalf⟩, hns⟩,
        by rw [List.flatMap_cons, hrest, hbytes], rfl⟩

/-- The bytes that a text was read from are those that write it. -/
theorem encodeUtf8_of_decodeUtf8 {bs : Bytes} {s : String} (h : decodeUtf8 bs = .ok s) :
    encodeUtf8 s = bs := by
  obtain ⟨cs, hcs, rfl⟩ := except_map_eq_ok.mp h
  obtain ⟨ns, hns, hbytes, rfl⟩ := exists_points_of_decodeFrom hcs
  rw [encodeUtf8, String.toList_ofList, points_ofPoints fun n hn => (hns n hn).1, hbytes]

/-! ## Line ends -/

section LineEnds

variable {c : Char} {s t : List Char}

/-- Lines that end in line feeds only are left alone. -/
theorem unifyLineEnds_of_no_return {cs : List Char} (h : ∀ c ∈ cs, c ≠ '\r') :
    unifyLineEnds cs = cs := by
  fun_induction unifyLineEnds cs with
  | case1 => rfl
  | case2 r ih => exact absurd rfl (h '\r' (by simp))
  | case3 r _ ih => exact absurd rfl (h '\r' (by simp))
  | case4 c r _ _ ih => rw [ih fun d hd => h d (by simp [hd])]

theorem unifyLineEnds_cons (hc : c ≠ '\r') :
    unifyLineEnds (c :: s) = c :: unifyLineEnds s := by
  rw [unifyLineEnds]
  · rintro _ rfl
    exact absurd rfl hc
  · exact hc

theorem unifyLineEnds_return (s : List Char) :
    ∃ r, unifyLineEnds ('\r' :: s) = '\n' :: unifyLineEnds r := by
  cases s with
  | nil => exact ⟨[], rfl⟩
  | cons d s =>
    by_cases hd : d = '\n'
    · subst hd
      exact ⟨s, rfl⟩
    · refine ⟨d :: s, ?_⟩
      rw [unifyLineEnds]
      rintro _ h
      exact hd (List.cons.inj h).1

/-- A character other than a line feed was there before. -/
theorem eq_cons_of_unifyLineEnds (h : unifyLineEnds s = c :: t) (hc : c ≠ '\n') :
    ∃ r, s = c :: r ∧ unifyLineEnds r = t := by
  cases s with
  | nil => cases h
  | cons d s =>
    by_cases hd : d = '\r'
    · subst hd
      obtain ⟨r, hr⟩ := unifyLineEnds_return s
      rw [hr] at h
      exact absurd (List.cons.inj h).1.symm hc
    · rw [unifyLineEnds_cons hd] at h
      obtain ⟨rfl, rfl⟩ := List.cons.inj h
      exact ⟨s, rfl, rfl⟩

theorem eq_append_of_unifyLineEnds {w : List Char} (h : unifyLineEnds s = w ++ t)
    (hw : ∀ c ∈ w, c ≠ '\n') : ∃ r, s = w ++ r ∧ unifyLineEnds r = t := by
  induction w generalizing s with
  | nil => exact ⟨s, rfl, h⟩
  | cons c w ih =>
    obtain ⟨hc, hw⟩ := List.forall_mem_cons.mp hw
    obtain ⟨q, rfl, hq⟩ := eq_cons_of_unifyLineEnds h hc
    obtain ⟨r, rfl, hr⟩ := ih hq hw
    exact ⟨r, rfl, hr⟩

theorem isEmpty_unifyLineEnds (s : List Char) : (unifyLineEnds s).isEmpty = s.isEmpty := by
  cases s with
  | nil => rfl
  | cons c s =>
    by_cases hc : c = '\r'
    · subst hc
      obtain ⟨r, hr⟩ := unifyLineEnds_return s
      rw [hr]
      rfl
    · rw [unifyLineEnds_cons hc]
      rfl

theorem length_unifyLineEnds (s : List Char) : (unifyLineEnds s).length ≤ s.length := by
  fun_induction unifyLineEnds s with
  | case1 => exact Nat.le_refl _
  | case2 r ih => exact Nat.succ_le_succ (Nat.le_succ_of_le ih)
  | case3 r _ ih | case4 c r _ _ ih => exact Nat.succ_le_succ ih

end LineEnds

end ChunkBuild.Text
