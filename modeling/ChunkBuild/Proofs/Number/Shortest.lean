import ChunkBuild.Number.Shortest
import ChunkBuild.Proofs.Number.Rounding
import ChunkBuild.Proofs.Text.Integer
import Mathlib.Data.Nat.Cast.Order.Field
import Mathlib.Data.Nat.Digits.Lemmas
/-! # The shortest decimal is read back

Seventeen digits are enough: the decimal of so many digits that lies nearest to a double is rounded to
it. Main statement: the shortest decimal of a double is rounded to that double. -/
namespace ChunkBuild.Number

open ChunkBuild.Text

variable {m num den : ℕ} {e size scale : ℤ} {negative : Bool}

/-! ## Magnitudes -/

theorem ten_zpow_pos (k : ℤ) : (0 : ℚ) < 10 ^ k := zpow_pos (by norm_num) k

theorem length_lowDigits {q : ℕ} (hq : q ≠ 0) :
    (lowDigits (q + 1) q).length = Nat.log 10 q + 1 := by
  have hfuel : q < 10 ^ (q + 1) :=
    (Nat.lt_pow_self (by omega)).trans (Nat.pow_lt_pow_right (by omega) (Nat.lt_succ_self q))
  rw [lowDigits_eq hfuel (Nat.pos_of_ne_zero hq), Nat.length_digits 10 q (by omega) hq]

/-- A number has no fewer digits before the point than its magnitude says. -/
theorem ten_zpow_magnitude_le (hd : 0 < den) {k : ℕ} (hk : k < 400)
    (hsmall : den ≤ num * 10 ^ (k + 1)) : (10 : ℚ) ^ (magnitude num den - 1) ≤ num / den := by
  have hden : (0 : ℚ) < den := Nat.cast_pos.mpr hd
  unfold magnitude
  split
  · next hle =>
    have hq : num / den ≠ 0 := (Nat.div_pos hle hd).ne'
    rw [length_lowDigits hq, Nat.cast_add, Nat.cast_one, add_sub_cancel_right, zpow_natCast]
    calc (10 : ℚ) ^ Nat.log 10 (num / den)
      _ ≤ (num / den : ℕ) := by exact_mod_cast Nat.pow_log_le_self 10 hq
      _ ≤ num / den := Nat.cast_div_le
  · next hlt =>
    have hshift {j : ℕ} (hj : den ≤ num * 10 ^ (j + 1)) :
        (10 : ℚ) ^ (-(j : ℤ) - 1) ≤ num / den := by
      have hpow : (10 : ℚ) ^ (-(j : ℤ) - 1) = 1 / 10 ^ (j + 1) := by
        rw [← neg_add', zpow_neg, one_div]
        norm_cast
      rw [hpow, div_le_div_iff₀ (by positivity) hden, one_mul]
      exact_mod_cast hj
    split
    · next j hj =>
      have hle := List.find?_some hj
      exact hshift (of_decide_eq_true hle)
    · next hnone =>
      have hno := List.find?_eq_none.mp hnone k (List.mem_range.mpr hk)
      exact absurd (decide_eq_true hsmall) hno

/-! ## Neighbours -/

/-- The neighbours of a number are those of a quotient of natural numbers. -/
theorem exists_quotient (num : ℕ) (scale : ℤ) (hd : 0 < den) : ∃ n d : ℕ, 0 < d ∧
    (n : ℚ) / d = num / den / 10 ^ scale ∧
    ∀ x, x = n / d ∨ x = n / d + 1 → x ∈ neighbours num den scale := by
  refine ⟨if scale < 0 then num * Nat.pow 10 (-scale).toNat else num,
    if scale < 0 then den else den * Nat.pow 10 scale.toNat, ?_, ?_, ?_⟩
  · split
    · exact hd
    · exact Nat.mul_pos hd (Nat.pow_pos (by norm_num))
  · split
    · next h =>
      obtain ⟨k, rfl⟩ : ∃ k : ℕ, scale = -k := ⟨(-scale).toNat, by omega⟩
      rw [neg_neg, Int.toNat_natCast, Nat.pow_eq]
      push_cast
      rw [zpow_neg, zpow_natCast, div_inv_eq_mul]
      ring
    · next h =>
      obtain ⟨k, rfl⟩ : ∃ k : ℕ, scale = k := ⟨scale.toNat, by omega⟩
      rw [Int.toNat_natCast, Nat.pow_eq]
      push_cast
      rw [zpow_natCast, div_div]
  · intro x hx
    unfold neighbours
    extract_lets n d q
    have hx : x = q ∨ x = q + 1 := hx
    split
    · exact List.mem_pair.mpr hx
    · exact List.mem_pair.mpr hx.symm

/-- Of the natural numbers next to a quotient one lies no further than a half from it. -/
theorem exists_half_close (n : ℕ) {d : ℕ} (hd : 0 < d) :
    ∃ x : ℕ, (x = n / d ∨ x = n / d + 1) ∧ |(x : ℚ) - n / d| ≤ 1 / 2 := by
  have hden : (0 : ℚ) < d := Nat.cast_pos.mpr hd
  have hsplit : (n : ℚ) / d = (n / d : ℕ) + (n % d : ℕ) / d := by
    have hn : (n : ℚ) = d * (n / d : ℕ) + (n % d : ℕ) := by
      exact_mod_cast (Nat.div_add_mod n d).symm
    rw [div_eq_iff hden.ne', add_mul, div_mul_cancel₀ _ hden.ne', mul_comm ((n / d : ℕ) : ℚ)]
    exact hn
  rw [hsplit]
  by_cases hhalf : 2 * (n % d) ≤ d
  · refine ⟨n / d, .inl rfl, ?_⟩
    have hle : ((n % d : ℕ) : ℚ) / d ≤ 1 / 2 := by
      rw [div_le_div_iff₀ hden two_pos, one_mul, mul_comm]
      exact_mod_cast hhalf
    rw [sub_add_cancel_left, abs_neg, abs_of_nonneg (by positivity)]
    exact hle
  · refine ⟨n / d + 1, .inr rfl, ?_⟩
    have hge : 1 / 2 ≤ ((n % d : ℕ) : ℚ) / d := by
      rw [div_le_div_iff₀ two_pos hden, one_mul, mul_comm]
      exact_mod_cast (not_le.mp hhalf).le
    have hlt : ((n % d : ℕ) : ℚ) / d ≤ 1 := by
      rw [div_le_one hden]
      exact_mod_cast (Nat.mod_lt n hd).le
    push_cast
    rw [add_sub_add_left_eq_sub, abs_of_nonneg (by linarith)]
    linarith

/-- One of the neighbours lies no further than a half from the number. -/
theorem exists_neighbour (num : ℕ) (scale : ℤ) (hd : 0 < den) :
    ∃ x ∈ neighbours num den scale, |(x : ℚ) - num / den / 10 ^ scale| ≤ 1 / 2 := by
  obtain ⟨n, d, hpos, hvalue, hmem⟩ := exists_quotient num scale hd
  obtain ⟨x, hx, hclose⟩ := exists_half_close n hpos
  exact ⟨x, hmem x hx, hvalue ▸ hclose⟩

/-- Seventeen digits are enough. -/
theorem nearest_of_seventeen (negative : Bool) (hp : IsParts m e) (hm : m ≠ 0)
    (hscale : (10 : ℚ) ^ (scale + 16) ≤ m * 2 ^ e) {x : ℕ}
    (hx : |(x : ℚ) - m * 2 ^ e / 10 ^ scale| ≤ 1 / 2) :
    nearest negative (x * 10 ^ scale) = .finite negative m e := by
  have htwo := two_zpow_pos e
  have hten := ten_zpow_pos scale
  have hunit : (10 : ℚ) ^ scale / 2 ^ e ≤ m / 10 ^ 16 := by
    rw [div_le_div_iff₀ htwo (by norm_num), mul_comm _ ((2 : ℚ) ^ e), mul_comm ((2 : ℚ) ^ e)]
    calc (10 : ℚ) ^ scale * 10 ^ 16 = 10 ^ (scale + 16) := by
          rw [zpow_add₀ (by norm_num)]
          norm_cast
      _ ≤ m * 2 ^ e := hscale
  have hdistance : |(x : ℚ) * 10 ^ scale / 2 ^ e - m| ≤ m / 10 ^ 16 / 2 := by
    have hfactor : (x : ℚ) * 10 ^ scale / 2 ^ e - m =
        ((x : ℚ) - m * 2 ^ e / 10 ^ scale) * (10 ^ scale / 2 ^ e) := by
      field_simp
    rw [hfactor, abs_mul, abs_of_pos (div_pos hten htwo)]
    calc |(x : ℚ) - m * 2 ^ e / 10 ^ scale| * (10 ^ scale / 2 ^ e)
      _ ≤ 1 / 2 * (m / 10 ^ 16) := mul_le_mul hx hunit (div_pos hten htwo).le (by norm_num)
      _ = m / 10 ^ 16 / 2 := by ring
  have hbound : (m : ℚ) ≤ 2 ^ 53 := by
    have hlt := hp.lt_bound
    rw [significandBound_eq] at hlt
    exact_mod_cast hlt.le
  apply nearest_of_close hp hm
  · calc |(x : ℚ) * 10 ^ scale / 2 ^ e - m| ≤ m / 10 ^ 16 / 2 := hdistance
      _ ≤ 2 ^ 53 / 10 ^ 16 / 2 := by gcongr
      _ < 1 / 2 := by norm_num
  · rintro rfl
    have hlow := (abs_le.mp hdistance).1
    push_cast at hlow ⊢
    norm_num at hlow ⊢
    linarith

/-! ## The shortest decimal -/

theorem nearest_sign {n : ℕ} {k : ℤ} {r : ℚ} (h : nearest false r = .finite false n k) :
    nearest negative r = .finite negative n k := by
  unfold nearest assembled at h ⊢
  split at h
  next m e hm =>
  split at h
  · cases h
  · next hle =>
    cases h
    exact if_neg hle

theorem ne_zero_of_close {x : ℕ} (hscale : (10 : ℚ) ^ (scale + 16) ≤ m * 2 ^ e)
    (hx : |(x : ℚ) - m * 2 ^ e / 10 ^ scale| ≤ 1 / 2) : x ≠ 0 := by
  rintro rfl
  have hlarge : (10 : ℚ) ^ (16 : ℤ) ≤ m * 2 ^ e / 10 ^ scale := by
    rw [le_div_iff₀ (ten_zpow_pos scale), ← zpow_add₀ (by norm_num), add_comm]
    exact hscale
  have hlow := (abs_le.mp hx).1
  rw [Nat.cast_zero, zero_sub] at hlow
  norm_num at hlarge
  linarith

/-- A decimal found by looking at more and more digits. -/
theorem ofDecimal_shortestFrom (hp : IsParts m e) (hm : m ≠ 0) (hd : 0 < den)
    (hvalue : (num : ℚ) / den = m * 2 ^ e) (hsize : (10 : ℚ) ^ (size - 1) ≤ m * 2 ^ e)
    {fuel count : ℕ} (hf : 0 < fuel) (hc : fuel + count = 18) :
    ofDecimal false (shortestFrom m e num den size fuel count).1
      (shortestFrom m e num den size fuel count).2 = .finite false m e := by
  induction fuel generalizing count with
  | zero => omega
  | succ fuel ih =>
    rw [shortestFrom]
    split
    · next d hfound =>
      have hsame := List.find?_some hfound
      exact eq_of_beq hsame
    · next hnone =>
      by_cases hlast : fuel = 0
      · obtain ⟨x, hx, hclose⟩ := exists_neighbour num (size - count) hd
        have hscale : (10 : ℚ) ^ (size - count + 16) ≤ m * 2 ^ e := by
          have hlow : size - count + 16 = size - 1 := by omega
          rw [hlow]
          exact hsize
        rw [hvalue] at hclose
        have hne : x ≠ 0 := ne_zero_of_close hscale hclose
        have hnearest := nearest_of_seventeen false hp hm hscale hclose
        rw [← ofDecimal_eq false hne] at hnearest
        exact absurd (beq_iff_eq.mpr hnearest) (List.find?_eq_none.mp hnone x hx)
      · exact ih (Nat.pos_of_ne_zero hlast) (by omega)

theorem dropZeros_spec (fuel : ℕ) (p : ℕ × ℤ) (hp : p.1 ≠ 0) : (dropZeros fuel p).1 ≠ 0 ∧
    ((dropZeros fuel p).1 : ℚ) * 10 ^ (dropZeros fuel p).2 = p.1 * 10 ^ p.2 := by
  induction fuel generalizing p with
  | zero => exact ⟨hp, rfl⟩
  | succ fuel ih =>
    obtain ⟨d, scale⟩ := p
    rw [dropZeros]
    split
    · next hzero =>
      have hd : d = 10 * (d / 10) := by omega
      obtain ⟨hne, hsame⟩ := ih (d / 10, scale + 1) (fun h : d / 10 = 0 => hp (by omega))
      refine ⟨hne, hsame.trans ?_⟩
      have hcast : (d : ℚ) = 10 * (d / 10 : ℕ) := by exact_mod_cast hd
      rw [hcast, zpow_add_one₀ (by norm_num)]
      ring
    · exact ⟨hp, rfl⟩

/-- No positive double is smaller than a power of ten that magnitudes reach. -/
theorem den_le_of_parts (hp : IsParts m e) (hm : m ≠ 0) (hd : 0 < den)
    (hvalue : (num : ℚ) / den = m * 2 ^ e) {k : ℕ} (hk : 1074 ≤ 3 * k) : den ≤ num * 10 ^ k := by
  have hden : (0 : ℚ) < den := Nat.cast_pos.mpr hd
  have hone : (1 : ℚ) ≤ m := Nat.one_le_cast.mpr (Nat.pos_of_ne_zero hm)
  have hleast : (2 : ℚ) ^ (-(3 * k : ℤ)) ≤ m * 2 ^ e := by
    have he := hp.least
    unfold minExponent at he
    calc (2 : ℚ) ^ (-(3 * k : ℤ)) ≤ 2 ^ e := zpow_le_zpow_right₀ one_le_two (by omega)
      _ ≤ m * 2 ^ e := le_mul_of_one_le_left (two_zpow_pos e).le hone
  have hlarge : (1 : ℚ) ≤ num / den * 10 ^ (k : ℤ) := by
    rw [hvalue]
    calc (1 : ℚ) = 2 ^ (-(3 * k : ℤ)) * 2 ^ (3 * k : ℤ) := by
          rw [← zpow_add₀ two_ne_zero, neg_add_cancel, zpow_zero]
      _ ≤ m * 2 ^ e * 10 ^ (k : ℤ) :=
        mul_le_mul hleast (eight_pow_le k) (two_zpow_pos _).le
          ((two_zpow_pos _).le.trans hleast)
  rw [div_mul_eq_mul_div, one_le_div hden, zpow_natCast] at hlarge
  exact_mod_cast hlarge

/-- The shortest decimal of a double is rounded to that double. -/
theorem nearest_shortest (negative : Bool) (hp : IsParts m e) (hm : m ≠ 0) : (shortest m e).1 ≠ 0 ∧
    nearest negative ((shortest m e).1 * 10 ^ (shortest m e).2) = .finite negative m e := by
  have hpos : 0 < m := Nat.pos_of_ne_zero hm
  have hden := scaled_den_pos m one_pos (-e)
  have hvalue : ((scaled m 1 (-e)).1 : ℚ) / (scaled m 1 (-e)).2 = m * 2 ^ e := by
    rw [scaled_value, Nat.cast_one, div_one, zpow_neg, div_inv_eq_mul]
  rw [shortest]
  generalize scaled m 1 (-e) = q at hden hvalue
  obtain ⟨num, den⟩ := q
  dsimp only at hden hvalue ⊢
  have hsize := ten_zpow_magnitude_le hden (show 357 < 400 by norm_num)
    (den_le_of_parts hp hm hden hvalue (by norm_num))
  rw [hvalue] at hsize
  have hdecimal : ofDecimal false (shortestFrom m e num den (magnitude num den) 17 1).1
      (shortestFrom m e num den (magnitude num den) 17 1).2 = .finite false m e :=
    ofDecimal_shortestFrom hp hm hden hvalue hsize (by norm_num) rfl
  generalize shortestFrom m e num den (magnitude num den) 17 1 = p at hdecimal
  have hne : p.1 ≠ 0 := by
    intro hzero
    rw [hzero, ofDecimal, if_pos rfl] at hdecimal
    cases hdecimal
    exact hm rfl
  obtain ⟨hd, hsame⟩ := dropZeros_spec 20 p hne
  rw [ofDecimal_eq false hne] at hdecimal
  rw [hsame]
  exact ⟨hd, nearest_sign hdecimal⟩

end ChunkBuild.Number
