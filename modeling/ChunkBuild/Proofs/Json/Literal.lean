import ChunkBuild.Proofs.Json.Quoted
import ChunkBuild.Proofs.Text.Occurrence
/-! # What stands between quotes as it is

A printable character other than the quote and the backslash is written as itself, and all others begin
with a backslash. A pattern of such characters that begins with a percent sign, which no escape holds, is
found between the quotes exactly where the text holds it. -/
namespace ChunkBuild.Json

open ChunkBuild.Text

def IsLiteral (c : Char) : Prop := 32 ≤ c.toNat ∧ c.toNat ≤ 126 ∧ c ≠ '"' ∧ c ≠ '\\'

instance : DecidablePred IsLiteral := fun c =>
  inferInstanceAs (Decidable (32 ≤ c.toNat ∧ c.toNat ≤ 126 ∧ c ≠ '"' ∧ c ≠ '\\'))

inductive Writes : List Char → List Char → Prop where
  | nil : Writes [] []
  | kept {c s e} : IsLiteral c → Writes s e → Writes (c :: s) (c :: e)
  | escaped {u v s e} : u ≠ [] → (∀ c ∈ u, ¬ IsLiteral c) → '%' ∉ v → Writes s e →
      Writes (u ++ s) ('\\' :: v ++ e)

variable {s e p q : List Char} {c d : Char} {n : Nat}

/-! ## Escapes -/

theorem escapePoint_of_literal (h : IsLiteral c) : escapePoint c.toNat = [c] := by
  obtain ⟨hlow, hhigh, hquote, hslash⟩ := h
  have hquote : c.toNat ≠ 34 := fun he => hquote (Char.toNat_inj.mp he)
  have hslash : c.toNat ≠ 92 := fun he => hslash (Char.toNat_inj.mp he)
  have hrange : (32 ≤ c.toNat && c.toNat ≤ 126) = true := by simp [hlow, hhigh]
  unfold escapePoint
  rw [if_neg hquote, if_neg hslash]
  repeat rw [if_neg (by omega)]
  rw [if_pos hrange, Char.ofNat_toNat]

theorem percent_notMem_unitEscape (n : Nat) : '%' ∉ unitEscape n := by
  have hdigit : ∀ d < 16, '%' ≠ hexDigit d := by decide
  have hd (k : Nat) := hdigit (k % 16) (Nat.mod_lt k (by omega))
  simp only [unitEscape, hexText_four, List.mem_cons, not_or]
  exact ⟨by decide, by decide, hd _, hd _, hd _, hd _, List.not_mem_nil⟩

theorem escapePoint_of_not_literal (h : ∀ c, IsLiteral c → c.toNat ≠ n) :
    ∃ v, escapePoint n = '\\' :: v ∧ '%' ∉ v := by
  have hunit (k : Nat) : ∃ v, unitEscape k = '\\' :: v ∧ '%' ∉ v :=
    ⟨_, rfl, fun hv => percent_notMem_unitEscape k (List.mem_cons_of_mem _ hv)⟩
  unfold escapePoint
  simp only [Bool.and_eq_true, decide_eq_true_eq]
  split_ifs with h₁ h₂ h₃ h₄ h₅ h₆ h₇ h₈ h₉
  any_goals
    subst n
    exact ⟨_, rfl, by decide⟩
  · have hc : (Char.ofNat n).toNat = n := toNat_ofNat (.inl (by omega))
    have hliteral : IsLiteral (Char.ofNat n) := by
      refine ⟨by omega, by omega, ?_, ?_⟩
      · intro he
        exact h₁ (by rw [← hc, he]; rfl)
      · intro he
        exact h₂ (by rw [← hc, he]; rfl)
    exact absurd hc (h _ hliteral)
  · exact hunit n
  · obtain ⟨v, hv, hfree⟩ := hunit (0xD800 + (n - 0x10000) / 0x400)
    refine ⟨v ++ unitEscape (0xDC00 + (n - 0x10000) % 0x400), by rw [hv]; rfl, ?_⟩
    rw [List.mem_append, not_or]
    exact ⟨hfree, percent_notMem_unitEscape _⟩

/-! ## Texts -/

theorem Writes.point (c : Char) (h : Writes s e) : Writes (c :: s) (escapePoint c.toNat ++ e) := by
  by_cases hc : IsLiteral c
  · rw [escapePoint_of_literal hc]
    exact .kept hc h
  · have hother : ∀ d, IsLiteral d → d.toNat ≠ c.toNat := by
      intro d hd he
      exact hc (Char.toNat_inj.mp he ▸ hd)
    obtain ⟨v, hv, hfree⟩ := escapePoint_of_not_literal hother
    rw [hv]
    exact .escaped (List.cons_ne_nil c []) (List.forall_mem_singleton.mpr hc) hfree h

theorem IsLiteral.unpaired (h : IsLiteral c) : isMark c = false ∧ isIndex c = false := by
  obtain ⟨-, hhigh, -, -⟩ := h
  have hmark : ¬ firstMark ≤ c.toNat := by
    unfold firstMark
    omega
  have hindex : ¬ firstIndex ≤ c.toNat := by
    unfold firstIndex
    omega
  exact ⟨by simp [isMark, hmark], by simp [isIndex, hindex]⟩

theorem pairPoint_ge (h : isIndex d = true) : 0xD800 ≤ pairPoint c d := by
  simp only [isIndex, decide_eq_true_eq] at h
  unfold pairPoint
  unfold firstIndex firstMark at *
  split_ifs
  all_goals omega

theorem writes_points (s : List Char) : Writes s ((points s).flatMap escapePoint) := by
  fun_induction points s with
  | case1 => exact .nil
  | case2 c => exact Writes.nil.point c
  | case3 c d r hpair ih =>
    rw [Bool.and_eq_true] at hpair
    have hother : ∀ x, IsLiteral x → x.toNat ≠ pairPoint c d := by
      intro x hx
      have hlarge := pairPoint_ge (c := c) hpair.2
      have hsmall := hx.2.1
      omega
    have hnone : ∀ x ∈ [c, d], ¬ IsLiteral x := by
      rw [List.forall_mem_cons, List.forall_mem_singleton]
      constructor
      · intro hc
        exact absurd hpair.1 (by simp [hc.unpaired.1])
      · intro hd
        exact absurd hpair.2 (by simp [hd.unpaired.2])
    obtain ⟨v, hv, hfree⟩ := escapePoint_of_not_literal hother
    rw [List.flatMap_cons, hv]
    exact .escaped (List.cons_ne_nil c [d]) hnone hfree ih
  | case4 c d r _ ih => exact ih.point c

/-! ## Where a pattern occurs -/

theorem Writes.prefix_iff (h : Writes s e) (hq : ∀ c ∈ q, IsLiteral c) : q <+: e ↔ q <+: s := by
  induction h generalizing q with
  | nil => rfl
  | kept _ _ ih =>
    cases q with
    | nil => exact iff_of_true List.nil_prefix List.nil_prefix
    | cons x q =>
      have hrest : ∀ c ∈ q, IsLiteral c := fun c hc => hq c (List.mem_cons_of_mem x hc)
      rw [List.cons_prefix_cons, List.cons_prefix_cons, ih hrest]
  | @escaped u v s e hu hnone _ _ _ =>
    cases q with
    | nil => exact iff_of_true List.nil_prefix List.nil_prefix
    | cons x q =>
      have hx := hq x List.mem_cons_self
      obtain ⟨d, u, rfl⟩ := List.exists_cons_of_ne_nil hu
      refine iff_of_false ?_ ?_
      · intro hpre
        obtain ⟨rfl, -⟩ := List.cons_prefix_cons.mp hpre
        exact absurd hx (by decide)
      · intro hpre
        obtain ⟨rfl, -⟩ := List.cons_prefix_cons.mp hpre
        exact hnone x List.mem_cons_self hx

theorem Writes.infix_iff (h : Writes s e) (hp : ∀ c ∈ '%' :: p, IsLiteral c) :
    '%' :: p <:+: e ↔ '%' :: p <:+: s := by
  induction h with
  | nil => rfl
  | kept hc hrest ih =>
    rw [List.infix_cons_iff, List.infix_cons_iff, ih, (Writes.kept hc hrest).prefix_iff hp]
  | escaped _ hnone hfree _ ih =>
    have hescape : '%' ∉ '\\' :: _ := List.not_mem_cons_of_ne_of_not_mem (by decide) hfree
    rw [infix_append_iff_of_head hescape, ih, infix_append_iff_of_head]
    exact fun hmem => hnone _ hmem (by decide)

theorem infix_stringText_iff {t : String} (hp : ∀ c ∈ '%' :: p, IsLiteral c) :
    '%' :: p <:+: (stringText t).toList ↔ '%' :: p <:+: t.toList := by
  have hne : '%' :: p ≠ [] := List.cons_ne_nil _ p
  have hquote : '"' ∉ '%' :: p := fun h => absurd (hp _ h) (by decide)
  have hnil : ¬ '%' :: p <:+: [] := fun h => hne (List.infix_nil.mp h)
  rw [stringText_toList, ← List.nil_append ('"' :: _), infix_append_cons_iff hne hquote,
    or_iff_right hnil, infix_append_cons_iff hne hquote, or_iff_left hnil,
    (writes_points t.toList).infix_iff hp]

end ChunkBuild.Json
