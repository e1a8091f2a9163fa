import ChunkBuild.Number.Binary64
import Mathlib.Algebra.Order.Floor.Semifield
import Mathlib.Data.Int.Log
import Mathlib.Data.Nat.Log
import Mathlib.Data.Rat.Floor
import Mathlib.Tactic.FieldSimp
import Mathlib.Tactic.Linarith
import Mathlib.Tactic.NormNum
import Mathlib.Tactic.Positivity
import Mathlib.Tactic.Ring
/-! # The nearest double

What a quotient or a decimal is rounded to is a matter of the rational number that it is. Main
statements: the double of a decimal is the one nearest to its value, and a number that lies close enough
to a double is rounded to it. -/
namespace ChunkBuild.Number

/-! ## Rounding to an integer -/

/-- The natural number nearest to a rational number, the even one of two. -/
def roundedEven (r : ℚ) : ℕ :=
  let n := ⌊r⌋₊
  if r - n < 1 / 2 then n else if 1 / 2 < r - n then n + 1 else n + n % 2

theorem roundQuotient_eq (num : ℕ) {den : ℕ} (hd : 0 < den) :
    roundQuotient num den = roundedEven (num / den) := by
  have hpos : (0 : ℚ) < den := Nat.cast_pos.mpr hd
  have hfloor : ⌊(num : ℚ) / den⌋₊ = num / den := Nat.floor_div_eq_div num den
  have hrest : (num : ℚ) / den - (num / den : ℕ) = (num % den : ℕ) / den := by
    have hsplit : (num : ℚ) = den * (num / den : ℕ) + (num % den : ℕ) := by
      exact_mod_cast (Nat.div_add_mod num den).symm
    rw [hsplit]
    field_simp
    ring
  have hbelow : ((num % den : ℕ) : ℚ) / den < 1 / 2 ↔ 2 * (num % den) < den := by
    rw [div_lt_div_iff₀ hpos two_pos, one_mul, mul_comm]
    exact_mod_cast Iff.rfl
  have habove : 1 / 2 < ((num % den : ℕ) : ℚ) / den ↔ den < 2 * (num % den) := by
    rw [div_lt_div_iff₀ two_pos hpos, one_mul, mul_comm _ (2 : ℚ)]
    exact_mod_cast Iff.rfl
  simp only [roundQuotient, roundedEven, hfloor, hrest, hbelow, habove]

theorem roundedEven_of_close {r : ℚ} {n : ℕ} (h : |r - n| < 1 / 2) : roundedEven r = n := by
  obtain ⟨hlow, hhigh⟩ := abs_lt.mp h
  rcases le_or_gt (n : ℚ) r with hn | hn
  · have hfloor : ⌊r⌋₊ = n :=
      (Nat.floor_eq_iff (le_trans (Nat.cast_nonneg n) hn)).mpr ⟨hn, by linarith⟩
    rw [roundedEven, hfloor, if_pos hhigh]
  · cases n with
    | zero =>
      have hfloor : ⌊r⌋₊ = 0 := Nat.floor_of_nonpos (le_of_lt (by simpa using hn))
      rw [roundedEven, hfloor, if_pos hhigh]
    | succ n =>
      push_cast at hlow hn
      have hfloor : ⌊r⌋₊ = n := by
        have hpos : (0 : ℚ) ≤ n := Nat.cast_nonneg n
        exact (Nat.floor_eq_iff (by linarith)).mpr ⟨by linarith, hn⟩
      rw [roundedEven, hfloor, if_neg (by linarith), if_pos (by linarith)]

/-- Rounding keeps bounds that are natural numbers. -/
theorem roundedEven_bounds {r : ℚ} {a b : ℕ} (ha : a ≤ r) (hb : r < b) :
    a ≤ roundedEven r ∧ roundedEven r ≤ b := by
  have hlow : a ≤ ⌊r⌋₊ := Nat.le_floor ha
  have hhigh : ⌊r⌋₊ < b := (Nat.floor_lt (le_trans (Nat.cast_nonneg a) ha)).mpr hb
  unfold roundedEven
  dsimp only
  split_ifs
  all_goals omega

/-! ## The exponent -/

theorem two_zpow_pos (e : ℤ) : (0 : ℚ) < 2 ^ e := zpow_pos two_pos e

theorem scaled_den_pos (num : ℕ) {den : ℕ} (hd : 0 < den) (e : ℤ) : 0 < (scaled num den e).2 := by
  unfold scaled
  split
  · exact hd
  · exact Nat.mul_pos hd (Nat.pow_pos two_pos)

theorem scaled_value (num den : ℕ) (e : ℤ) :
    ((scaled num den e).1 : ℚ) / (scaled num den e).2 = num / den / 2 ^ e := by
  unfold scaled
  split
  · next he =>
    obtain ⟨n, rfl⟩ : ∃ n : ℕ, e = -n := ⟨(-e).toNat, by omega⟩
    simp only [neg_neg, Int.toNat_natCast, Nat.pow_eq, Nat.cast_mul, Nat.cast_pow, Nat.cast_ofNat,
      zpow_neg, zpow_natCast, div_inv_eq_mul]
    ring
  · next he =>
    obtain ⟨n, rfl⟩ : ∃ n : ℕ, e = n := ⟨e.toNat, by omega⟩
    simp only [Int.toNat_natCast, Nat.pow_eq, Nat.cast_mul, Nat.cast_pow, Nat.cast_ofNat,
      zpow_natCast, div_div]

theorem lt_two_zpow_iff {r : ℚ} (hr : 0 < r) (k : ℤ) : r < 2 ^ k ↔ Int.log 2 r < k := by
  exact_mod_cast Int.lt_zpow_iff_log_lt (b := 2) one_lt_two hr

theorem two_zpow_le_iff {r : ℚ} (hr : 0 < r) (k : ℤ) : 2 ^ k ≤ r ↔ k ≤ Int.log 2 r := by
  rw [← not_lt, lt_two_zpow_iff hr, not_lt]

theorem div_lt_two_zpow_iff {r : ℚ} (hr : 0 < r) (e k : ℤ) :
    r / 2 ^ e < 2 ^ k ↔ Int.log 2 r < e + k := by
  rw [div_lt_iff₀ (two_zpow_pos e), ← zpow_add₀ two_ne_zero, lt_two_zpow_iff hr, add_comm]

theorem two_zpow_le_div_iff {r : ℚ} (hr : 0 < r) (e k : ℤ) :
    2 ^ k ≤ r / 2 ^ e ↔ e + k ≤ Int.log 2 r := by
  rw [← not_lt, div_lt_two_zpow_iff hr, not_lt]

theorem log_eq {r : ℚ} {e : ℤ} (hr : 0 < r) (hlow : 2 ^ e ≤ r) (hhigh : r < 2 ^ (e + 1)) :
    Int.log 2 r = e := by
  have hle := (two_zpow_le_iff hr e).mp hlow
  have hlt := (lt_two_zpow_iff hr (e + 1)).mp hhigh
  omega

/-- A quotient lies between two powers that its parts say. -/
theorem quotient_bounds {num den : ℕ} (hn : 0 < num) (hd : 0 < den) :
    (2 : ℚ) ^ ((num.log2 : ℤ) - den.log2 - 1) ≤ num / den ∧
      (num : ℚ) / den < 2 ^ ((num.log2 : ℤ) - den.log2 + 1) := by
  have hden : (0 : ℚ) < den := Nat.cast_pos.mpr hd
  have hnlow : (2 : ℚ) ^ num.log2 ≤ num := by exact_mod_cast Nat.log2_self_le hn.ne'
  have hnhigh : (num : ℚ) < 2 ^ (num.log2 + 1) := by exact_mod_cast Nat.lt_log2_self
  have hdlow : (2 : ℚ) ^ den.log2 ≤ den := by exact_mod_cast Nat.log2_self_le hd.ne'
  have hdhigh : (den : ℚ) < 2 ^ (den.log2 + 1) := by exact_mod_cast Nat.lt_log2_self
  constructor
  · have hpow : (2 : ℚ) ^ ((num.log2 : ℤ) - den.log2 - 1) = 2 ^ num.log2 / 2 ^ (den.log2 + 1) := by
      rw [sub_sub, zpow_sub₀ two_ne_zero, zpow_natCast]
      norm_cast
    rw [hpow]
    exact div_le_div₀ (by positivity) hnlow hden hdhigh.le
  · have hpow : (2 : ℚ) ^ ((num.log2 : ℤ) - den.log2 + 1) = 2 ^ (num.log2 + 1) / 2 ^ den.log2 := by
      rw [sub_add_eq_add_sub, zpow_sub₀ two_ne_zero, zpow_natCast]
      norm_cast
    rw [hpow]
    exact div_lt_div₀ hnhigh hdlow (by positivity) (by positivity)

/-- The exponent at which a number has 53 bits, or the least one. -/
def leadingExponent (r : ℚ) : ℤ := max (Int.log 2 r - 52) minExponent

theorem exponentOf_eq {num den : ℕ} (hn : 0 < num) (hd : 0 < den) :
    exponentOf num den = leadingExponent (num / den) := by
  have hr : (0 : ℚ) < num / den := div_pos (Nat.cast_pos.mpr hn) (Nat.cast_pos.mpr hd)
  obtain ⟨hlow, hhigh⟩ := quotient_bounds hn hd
  have hguess (e : ℤ) : (scaled num den e).1 < (scaled num den e).2 * Nat.pow 2 52 ↔
      (num : ℚ) / den < 2 ^ (e + 52) := by
    have hpos : (0 : ℚ) < (scaled num den e).2 := Nat.cast_pos.mpr (scaled_den_pos num hd e)
    rw [zpow_add₀ two_ne_zero, ← div_lt_iff₀' (two_zpow_pos e), ← scaled_value,
      div_lt_iff₀' hpos, Nat.pow_eq]
    exact_mod_cast Iff.rfl
  have hlog : (if (num : ℚ) / den < 2 ^ ((num.log2 : ℤ) - den.log2 - 52 + 52)
      then (num.log2 : ℤ) - den.log2 - 52 - 1 else (num.log2 : ℤ) - den.log2 - 52) =
        Int.log 2 ((num : ℚ) / den) - 52 := by
    rw [sub_add_cancel]
    split
    · next h =>
      rw [log_eq hr hlow (by rwa [sub_add_cancel])]
      ring
    · next h => rw [log_eq hr (not_lt.mp h) hhigh]
  unfold exponentOf
  simp only [hguess, hlog, leadingExponent]
  split
  · next h => exact (max_eq_right h.le).symm
  · next h => exact (max_eq_left (not_lt.mp h)).symm

/-! ## The nearest double -/

def assembled (negative : Bool) (m : ℕ) (e : ℤ) : Binary64 :=
  let (m, e) := if m = significandBound then (m / 2, e + 1) else (m, e)
  if 971 < e then .infinite negative else .finite negative m e

/-- The double nearest to a positive number and its opposite. -/
def nearest (negative : Bool) (r : ℚ) : Binary64 :=
  assembled negative (roundedEven (r / 2 ^ leadingExponent r)) (leadingExponent r)

theorem ofQuotient_eq (negative : Bool) {num den : ℕ} (hn : 0 < num) (hd : 0 < den) :
    ofQuotient negative num den = nearest negative (num / den) := by
  have hden := scaled_den_pos num hd (exponentOf num den)
  have hvalue := scaled_value num den (exponentOf num den)
  rw [nearest, ← exponentOf_eq hn hd, ← hvalue, ← roundQuotient_eq _ hden, ofQuotient,
    if_neg hn.ne']
  extract_lets e
  split
  next n d hq =>
  have hparts : scaled num den (exponentOf num den) = (n, d) := hq
  rw [hparts, assembled]

theorem assembled_of_lt {negative : Bool} {m : ℕ} {e : ℤ} (hm : m < significandBound)
    (he : e ≤ 971) : assembled negative m e = .finite negative m e := by
  rw [assembled, if_neg hm.ne]
  exact if_neg (not_lt.mpr he)

variable {negative : Bool} {r : ℚ} {m : ℕ} {e : ℤ}

theorem nearest_of_large (h : 2 ^ (1024 : ℤ) ≤ r) : nearest negative r = .infinite negative := by
  have hr : 0 < r := lt_of_lt_of_le (two_zpow_pos _) h
  have hlog : 1024 ≤ Int.log 2 r := (two_zpow_le_iff hr 1024).mp h
  have he : 972 ≤ leadingExponent r := le_max_of_le_left (by omega)
  rw [nearest, assembled]
  split
  next m' e' hm =>
    refine if_pos ?_
    split at hm
    · cases hm
      omega
    · cases hm
      omega

theorem nearest_of_small (hr : 0 < r) (h : r < 2 ^ (-1075 : ℤ)) :
    nearest negative r = .finite negative 0 minExponent := by
  have hlog : Int.log 2 r < -1075 := (lt_two_zpow_iff hr (-1075)).mp h
  have he : leadingExponent r = minExponent :=
    max_eq_right (by unfold minExponent; omega)
  have hzero : roundedEven (r / 2 ^ minExponent) = 0 := by
    apply roundedEven_of_close
    have hhalf : r / 2 ^ minExponent < 1 / 2 := by
      rw [div_lt_iff₀ (two_zpow_pos _)]
      calc r < 2 ^ (-1075 : ℤ) := h
        _ = 1 / 2 * 2 ^ minExponent := by
          rw [minExponent, show (-1075 : ℤ) = -1 + -1074 by norm_num, zpow_add₀ two_ne_zero]
          norm_num
    rw [Nat.cast_zero, sub_zero, abs_of_pos (div_pos hr (two_zpow_pos _))]
    exact hhalf
  rw [nearest, he, hzero]
  exact assembled_of_lt (by decide) (by decide)

theorem eight_pow_le (n : ℕ) : (2 : ℚ) ^ (3 * n : ℤ) ≤ 10 ^ (n : ℤ) := by
  rw [zpow_mul, zpow_natCast, zpow_natCast]
  exact pow_le_pow_left₀ (by norm_num) (by norm_num) n

/-- A decimal is rounded to the double nearest to its value. -/
theorem ofDecimal_eq (negative : Bool) {digits : ℕ} (hd : digits ≠ 0) (scale : ℤ) :
    ofDecimal negative digits scale = nearest negative (digits * 10 ^ scale) := by
  have hpos : 0 < digits := Nat.pos_of_ne_zero hd
  have hone : (1 : ℚ) ≤ digits := Nat.one_le_cast.mpr hpos
  rw [ofDecimal, if_neg hd]
  split
  · next h =>
    have hlarge : (2 : ℚ) ^ (1024 : ℤ) ≤ 10 ^ scale := by
      calc (2 : ℚ) ^ (1024 : ℤ)
        _ ≤ 2 ^ (3 * (400 : ℕ) : ℤ) := zpow_le_zpow_right₀ one_le_two (by norm_num)
        _ ≤ 10 ^ ((400 : ℕ) : ℤ) := eight_pow_le 400
        _ ≤ 10 ^ scale := zpow_le_zpow_right₀ (by norm_num) h.le
    refine (nearest_of_large (hlarge.trans ?_)).symm
    exact le_mul_of_one_le_left (zpow_nonneg (by norm_num) _) hone
  · split
    · next h =>
      obtain ⟨n, rfl⟩ : ∃ n : ℕ, scale = n := ⟨scale.toNat, by omega⟩
      rw [Int.toNat_natCast, Nat.pow_eq, ofQuotient_eq negative (by positivity) one_pos]
      congr 1
      push_cast
      rw [div_one, zpow_natCast]
    · next h =>
      obtain ⟨n, rfl⟩ : ∃ n : ℕ, scale = -n := ⟨(-scale).toNat, by omega⟩
      split
      · next hsmall =>
        have hten : (0 : ℚ) < 10 ^ (-(n : ℤ)) := zpow_pos (by norm_num) _
        refine (nearest_of_small (mul_pos (by linarith) hten) ?_).symm
        have hdigits : (digits : ℚ) < 2 ^ ((digits.log2 : ℤ) + 1) := by
          exact_mod_cast Nat.lt_log2_self (n := digits)
        have hpow : (10 : ℚ) ^ (-(n : ℤ)) ≤ 2 ^ (3 * -(n : ℤ)) := by
          rw [mul_neg, zpow_neg, zpow_neg]
          exact inv_anti₀ (two_zpow_pos _) (eight_pow_le n)
        calc (digits : ℚ) * 10 ^ (-(n : ℤ))
          _ < 2 ^ ((digits.log2 : ℤ) + 1) * 2 ^ (3 * -(n : ℤ)) :=
            mul_lt_mul hdigits hpow hten (two_zpow_pos _).le
          _ = 2 ^ ((digits.log2 : ℤ) + 1 + 3 * -(n : ℤ)) := (zpow_add₀ two_ne_zero _ _).symm
          _ ≤ 2 ^ (-1075 : ℤ) := zpow_le_zpow_right₀ one_le_two (by omega)
      · rw [neg_neg, Int.toNat_natCast, Nat.pow_eq, ofQuotient_eq negative hpos (by positivity)]
        congr 1
        push_cast
        rw [zpow_neg, zpow_natCast, div_eq_mul_inv]

/-! ## Doubles -/

/-- The significand and the exponent of a finite double: of 53 bits, or fewer at the least exponent. -/
structure IsParts (m : ℕ) (e : ℤ) : Prop where
  lt_bound : m < significandBound
  least : minExponent ≤ e
  greatest : e ≤ 971
  leading : 2 ^ 52 ≤ m ∨ e = minExponent

/-- A number that there is, written as it can be written only once. -/
def Binary64.IsCanonical : Binary64 → Prop
  | .finite _ m e => IsParts m e
  | _ => True

theorem significandBound_eq : significandBound = 2 ^ 53 := by rw [significandBound, Nat.pow_eq]

theorem assembled_isCanonical (hm : m ≤ significandBound) (he : minExponent ≤ e)
    (hlead : 2 ^ 52 ≤ m ∨ e = minExponent) : (assembled negative m e).IsCanonical := by
  rw [significandBound_eq] at hm
  rw [assembled]
  split
  next m' e' heq =>
  split
  · trivial
  · next hle =>
    rw [significandBound_eq] at heq
    split at heq
    · next hbound =>
      cases heq
      refine ⟨?_, by omega, by omega, .inl ?_⟩
      · rw [significandBound_eq]
        omega
      · omega
    · next hbound =>
      cases heq
      refine ⟨?_, he, by omega, hlead⟩
      rw [significandBound_eq]
      omega

theorem lt_leadingExponent (hr : 0 < r) : r / 2 ^ leadingExponent r < 2 ^ (53 : ℤ) := by
  rw [div_lt_two_zpow_iff hr]
  unfold leadingExponent
  omega

theorem nearest_isCanonical (hr : 0 < r) : (nearest negative r).IsCanonical := by
  have hpos : 0 ≤ r / 2 ^ leadingExponent r := (div_pos hr (two_zpow_pos _)).le
  have hhigh : r / 2 ^ leadingExponent r < (2 ^ 53 : ℕ) := by exact_mod_cast lt_leadingExponent hr
  apply assembled_isCanonical
  · rw [significandBound_eq]
    exact (roundedEven_bounds (a := 0) (by exact_mod_cast hpos) hhigh).2
  · exact le_max_right _ _
  · by_cases hlog : minExponent ≤ Int.log 2 r - 52
    · have hcast : ((2 ^ 52 : ℕ) : ℚ) = 2 ^ (52 : ℤ) := by norm_num
      have hlow : ((2 ^ 52 : ℕ) : ℚ) ≤ r / 2 ^ leadingExponent r := by
        rw [hcast, two_zpow_le_div_iff hr, leadingExponent, max_eq_left hlog]
        omega
      exact .inl (roundedEven_bounds hlow hhigh).1
    · exact .inr (max_eq_right (le_of_not_ge hlog))

theorem ofDecimal_isCanonical (negative : Bool) (digits : ℕ) (scale : ℤ) :
    (ofDecimal negative digits scale).IsCanonical := by
  by_cases hd : digits = 0
  · rw [ofDecimal, if_pos hd]
    exact ⟨by decide, le_refl _, by decide, .inr rfl⟩
  · rw [ofDecimal_eq negative hd]
    have hpos : (0 : ℚ) < digits := Nat.cast_pos.mpr (Nat.pos_of_ne_zero hd)
    exact nearest_isCanonical (mul_pos hpos (zpow_pos (by norm_num) _))

/-- Below a power of two the doubles lie closer. A number there that is close enough is rounded up. -/
theorem nearest_below_power (hr : 0 < r) (hleast : minExponent < e) (hgreatest : e ≤ 971)
    (hclose : (2 ^ 52 : ℕ) - 1 / 4 < r / 2 ^ e) (hbelow : r / 2 ^ e < 2 ^ (52 : ℤ)) :
    nearest negative r = .finite negative (2 ^ 52) e := by
  have hlow : 2 ^ (51 : ℤ) ≤ r / 2 ^ e := by
    norm_num at hclose ⊢
    linarith
  have hexponent : leadingExponent r = e - 1 := by
    have hge := (two_zpow_le_div_iff hr e 51).mp hlow
    have hlt := (div_lt_two_zpow_iff hr e 52).mp hbelow
    unfold leadingExponent
    omega
  have hdouble : r / 2 ^ (e - 1) = 2 * (r / 2 ^ e) := by
    rw [zpow_sub_one₀ two_ne_zero]
    field_simp
  have hrounded : roundedEven (r / 2 ^ (e - 1)) = significandBound := by
    apply roundedEven_of_close
    rw [hdouble, significandBound_eq, abs_lt]
    push_cast at hclose ⊢
    norm_num at hbelow hclose ⊢
    constructor
    · linarith
    · linarith
  rw [nearest, hexponent, hrounded, assembled, if_pos rfl, sub_add_cancel]
  exact if_neg (not_lt.mpr hgreatest)

/-- A number close enough to a double is rounded to it. -/
theorem nearest_of_close (hp : IsParts m e) (hm : m ≠ 0) (h : |r / 2 ^ e - m| < 1 / 2)
    (hbelow : m = 2 ^ 52 → m - 1 / 4 < r / 2 ^ e) : nearest negative r = .finite negative m e := by
  have hone : (1 : ℚ) ≤ m := Nat.one_le_cast.mpr (Nat.pos_of_ne_zero hm)
  have hbound : (m : ℚ) + 1 ≤ 2 ^ (53 : ℤ) := by
    have hlt := hp.lt_bound
    rw [significandBound_eq] at hlt
    exact_mod_cast hlt
  obtain ⟨hlow, hhigh⟩ := abs_lt.mp h
  have hr : 0 < r := by
    have hx : 0 < r / 2 ^ e := by linarith
    exact (div_pos_iff_of_pos_right (two_zpow_pos e)).mp hx
  have hleast := hp.least
  have hlt : Int.log 2 r < e + 53 := (div_lt_two_zpow_iff hr e 53).mp (by linarith)
  by_cases hlead : leadingExponent r = e
  · rw [nearest, hlead, roundedEven_of_close h]
    exact assembled_of_lt hp.lt_bound hp.greatest
  · -- the number lies below the power of two that the double is
    have hlog : minExponent < e ∧ Int.log 2 r < e + 52 := by
      unfold leadingExponent at hlead
      omega
    have hx : r / 2 ^ e < 2 ^ (52 : ℤ) := (div_lt_two_zpow_iff hr e 52).mpr hlog.2
    have hge : 2 ^ 52 ≤ m := hp.leading.resolve_right hlog.1.ne'
    have hle : m < 2 ^ 52 + 1 := by
      have hcast : (m : ℚ) < 2 ^ (52 : ℤ) + 1 := by linarith
      exact_mod_cast hcast
    obtain rfl : m = 2 ^ 52 := by omega
    exact nearest_below_power hr hlog.1 hp.greatest (hbelow rfl) hx

end ChunkBuild.Number
