import ChunkBuild.Text.Integer
import Mathlib.Data.Nat.Digits.Lemmas
import Mathlib.Data.List.Induction
import Mathlib.Tactic.IntervalCases
import Mathlib.Tactic.SplitIfs
/-! # Digits of written integers

A digit is below ten, so an integer that is read has no more digits than are written. The digits that
are written give the number back, and only zero begins with a zero. -/
namespace ChunkBuild.Text

theorem digitValue_lt {c : Char} {d : Nat} (h : digitValue? c = some d) : d < 10 := by
  obtain ⟨z, hz, rfl⟩ := Option.map_eq_some_iff.mp h
  have hb := List.find?_some hz
  simp only [Bool.and_eq_true, decide_eq_true_eq] at hb
  omega

theorem digitRun_lt {cs : List Char} {ds : List Nat} (h : digitRun cs = some ds) :
    ∀ d ∈ ds, d < 10 := by
  fun_induction digitRun cs generalizing ds with
  | case1 => simp at h
  | case2 c =>
    obtain ⟨d, hd, rfl⟩ := Option.map_eq_some_iff.mp h
    simpa using digitValue_lt hd
  | case3 c r ih =>
    obtain ⟨d, hd, h⟩ := Option.bind_eq_some_iff.mp h
    obtain ⟨es, hes, rfl⟩ := Option.map_eq_some_iff.mp h
    exact List.forall_mem_cons.mpr ⟨digitValue_lt hd, ih hes⟩
  | case4 c r _ _ ih =>
    obtain ⟨d, hd, h⟩ := Option.bind_eq_some_iff.mp h
    obtain ⟨es, hes, rfl⟩ := Option.map_eq_some_iff.mp h
    exact List.forall_mem_cons.mpr ⟨digitValue_lt hd, ih hes⟩

/-- The library's digits go from the lowest on. -/
theorem ofDigits_eq (ds : List Nat) : ofDigits ds = Nat.ofDigits 10 ds.reverse := by
  induction ds using List.reverseRecOn with
  | nil => rfl
  | append_singleton ds d ih =>
    have hs : ofDigits (ds ++ [d]) = 10 * ofDigits ds + d := by simp [ofDigits]
    rw [hs, ih, List.reverse_append, List.reverse_singleton, List.singleton_append,
      Nat.ofDigits_cons]
    omega

theorem ofDigits_lt {ds : List Nat} (h : ∀ d ∈ ds, d < 10) : ofDigits ds < 10 ^ ds.length := by
  rw [ofDigits_eq, ← List.length_reverse]
  exact Nat.ofDigits_lt_base_pow_length (by omega) fun d hd => h d (List.mem_reverse.mp hd)

/-- Reading and writing have one bound, so what is read can be written. -/
theorem readInteger_lt {s : String} {n : Int} (h : readInteger s = .ok n) :
    n.natAbs < 10 ^ digitLimit := by
  unfold readInteger at h
  split at h
  next negative body hsplit =>
    cases hr : digitRun body with
    | none => simp [hr] at h
    | some ds =>
      simp only [hr] at h
      split_ifs at h with hl hn
      all_goals
        cases h
        have hlt := ofDigits_lt (digitRun_lt hr)
        have hp : 10 ^ ds.length ≤ 10 ^ digitLimit := Nat.pow_le_pow_right (by omega) (by omega)
        omega

/-! ## Written digits -/

def digitsOf (n : Nat) : List Nat := if n = 0 then [0] else (Nat.digits 10 n).reverse

theorem lowDigits_eq {fuel n : Nat} (h : n < 10 ^ fuel) (hn : 0 < n) :
    lowDigits fuel n = Nat.digits 10 n := by
  induction fuel generalizing n with
  | zero =>
    rw [Nat.pow_zero] at h
    omega
  | succ fuel ih =>
    rw [Nat.pow_succ] at h
    by_cases hd : n < 10
    · rw [lowDigits, if_pos hd, Nat.digits_of_lt 10 n (by omega) hd]
    · rw [lowDigits, if_neg hd, ih (by omega) (by omega), ← Nat.digits_def' (by omega) hn]

theorem natText_toList (n : Nat) : (natText n).toList = (digitsOf n).map digitChar := by
  rw [natText, String.toList_ofList, digitsOf]
  split_ifs with h
  · subst h
    rfl
  · have hp : n < 10 ^ (n + 1) :=
      (Nat.lt_pow_self (by omega)).trans (Nat.pow_lt_pow_right (by omega) (Nat.lt_succ_self n))
    rw [lowDigits_eq hp (by omega)]

theorem digitsOf_lt {n d : Nat} (h : d ∈ digitsOf n) : d < 10 := by
  unfold digitsOf at h
  split_ifs at h
  · rw [List.mem_singleton] at h
    omega
  · exact Nat.digits_lt_base (by omega) (List.mem_reverse.mp h)

theorem ofDigits_digitsOf (n : Nat) : ofDigits (digitsOf n) = n := by
  unfold digitsOf
  split_ifs with h
  · exact h.symm
  · rw [ofDigits_eq, List.reverse_reverse, Nat.ofDigits_digits]

theorem digitsOf_length_le {n k : Nat} (hk : 0 < k) (h : n < 10 ^ k) : (digitsOf n).length ≤ k := by
  unfold digitsOf
  split_ifs
  · exact hk
  · rw [List.length_reverse]
    exact (Nat.digits_length_le_iff (by omega) n).mpr h

theorem digitsOf_eq_cons (n : Nat) : ∃ d ds, digitsOf n = d :: ds ∧ (d = 0 → ds = []) := by
  unfold digitsOf
  split_ifs with h
  · exact ⟨0, [], rfl, fun _ => rfl⟩
  · have hne : Nat.digits 10 n ≠ [] := Nat.digits_ne_nil_iff_ne_zero.mpr h
    have hlast := Nat.getLast_digit_ne_zero 10 h
    refine ⟨_, _, (List.cons_head_tail (List.reverse_ne_nil_iff.mpr hne)).symm, ?_⟩
    intro hd
    rw [List.head_reverse] at hd
    exact absurd hd hlast

theorem toNat_digitChar : ∀ d < 10, (digitChar d).toNat = 48 + d := by decide

/-! ## Reading back -/

variable {n : Nat} {ds : List Nat}

theorem digitValue?_digitChar : ∀ d < 10, digitValue? (digitChar d) = some d := by decide

theorem isNumberBlank_digitChar : ∀ d < 10, isNumberBlank (digitChar d) = false := by decide

theorem digitChar_ne_underscore : ∀ d < 10, digitChar d ≠ '_' := by decide

theorem digitRun_digits (h : ∀ d ∈ ds, d < 10) (hne : ds ≠ []) :
    digitRun (ds.map digitChar) = some ds := by
  induction ds with
  | nil => exact absurd rfl hne
  | cons d ds ih =>
    have hd := digitValue?_digitChar d (h d List.mem_cons_self)
    cases ds with
    | nil =>
      rw [List.map_cons, List.map_nil, digitRun, hd]
      rfl
    | cons e ds =>
      have hrun := ih (fun m hm => h m (List.mem_cons_of_mem d hm)) (List.cons_ne_nil e ds)
      have he := digitChar_ne_underscore e (h e (List.mem_cons_of_mem d List.mem_cons_self))
      rw [List.map_cons] at hrun ⊢
      rw [List.map_cons, digitRun, hd, hrun]
      · rfl
      · exact fun hnil => nomatch hnil
      · exact fun r hr => he (List.cons.inj hr).1

theorem trimBy_of_none {p : Char → Bool} {cs : List Char} (h : ∀ c ∈ cs, p c = false) :
    trimBy p cs = cs := by
  have hdrop {bs : List Char} (hb : ∀ c ∈ bs, p c = false) : bs.dropWhile p = bs := by
    cases bs with
    | nil => rfl
    | cons c r => rw [List.dropWhile_cons_of_neg]; simp [hb c List.mem_cons_self]
  rw [trimBy, hdrop h, hdrop fun c hc => h c (List.mem_reverse.mp hc), List.reverse_reverse]

/-- A number that is not too long is read back from its decimal text. -/
theorem readInteger_natText (h : n < 10 ^ digitLimit) : readInteger (natText n) = .ok n := by
  have hdigits : ∀ c ∈ (digitsOf n).map digitChar, isNumberBlank c = false := by
    intro c hc
    obtain ⟨d, hd, rfl⟩ := List.mem_map.mp hc
    exact isNumberBlank_digitChar d (digitsOf_lt hd)
  obtain ⟨d, ds, hcons, -⟩ := digitsOf_eq_cons n
  have hd : d < 10 := digitsOf_lt (hcons ▸ List.mem_cons_self)
  have hsign : readSign ((digitsOf n).map digitChar) = (false, (digitsOf n).map digitChar) := by
    rw [hcons, List.map_cons]
    interval_cases d
    all_goals rfl
  have hrun : digitRun ((digitsOf n).map digitChar) = some (digitsOf n) :=
    digitRun_digits (fun d hd => digitsOf_lt hd) (hcons ▸ List.cons_ne_nil d ds)
  have hlength : ¬ (digitsOf n).length > digitLimit :=
    Nat.not_lt.mpr (digitsOf_length_le (by decide) h)
  rw [readInteger, natText_toList, trimBy_of_none hdigits, hsign]
  dsimp only
  rw [hrun]
  dsimp only
  rw [if_neg hlength, if_neg Bool.false_ne_true, ofDigits_digitsOf]

end ChunkBuild.Text
