import ChunkBuild.Text.Pieces
import Mathlib.Data.List.Infix
import Mathlib.Tactic.SplitIfs
/-! # What a pattern separates

Occurrences are looked for from the left, so which pieces a pattern leaves depends on where it begins
first. A pattern that is put between texts is found there again only when it begins inside none of
them, not even together with the pattern behind it. Main statements: the pieces of a text are the
only ones that the pattern separates and that join to the text, and replacing joins them by another
text. -/
namespace ChunkBuild.Text

variable {pat new s a b : List Char} {ps : List (List Char)} {c : Char} {k : Nat}

/-- The pattern, put behind a text, does not begin inside it. -/
def Clear (pat a : List Char) : Prop := ∀ t, t <:+ a → t ≠ [] → ¬ pat <+: t ++ pat

inductive Separates (pat : List Char) : List (List Char) → Prop where
  | last (a : List Char) : ¬ pat <:+: a → Separates pat [a]
  | cons (a : List Char) (ps : List (List Char)) :
      Clear pat a → Separates pat ps → Separates pat (a :: ps)

theorem clear_nil : Clear pat [] := by
  intro t ht hne
  exact absurd (List.suffix_nil.mp ht) hne

theorem clear_cons_iff : Clear pat (c :: a) ↔ ¬ pat <+: c :: a ++ pat ∧ Clear pat a := by
  constructor
  · intro h
    exact ⟨h _ List.suffix_rfl (List.cons_ne_nil c a),
      fun t ht => h t (ht.trans (List.suffix_cons c a))⟩
  · rintro ⟨hc, ha⟩ t ht hne
    rcases List.suffix_cons_iff.mp ht with rfl | ht
    · exact hc
    · exact ha t ht hne

instance : DecidablePred (Clear pat) := fun a =>
  decidable_of_iff (∀ t ∈ a.tails, t ≠ [] → ¬ pat <+: t ++ pat) (by simp [Clear])

/-- Whatever follows the pattern. -/
theorem Clear.not_at_start (h : Clear pat (c :: a)) : ¬ pat <+: c :: a ++ pat ++ b := by
  intro hb
  apply (clear_cons_iff.mp h).1
  refine List.prefix_of_prefix_length_le hb (List.prefix_append _ b) ?_
  rw [List.length_append]
  omega

theorem Clear.absent (h : Clear pat a) (hp : pat ≠ []) : ¬ pat <:+: a := by
  rintro ⟨x, y, rfl⟩
  refine h (pat ++ y) ⟨x, (List.append_assoc x pat y).symm⟩ ?_ ?_
  · exact List.append_ne_nil_of_left_ne_nil hp y
  · exact (List.prefix_append pat y).trans (List.prefix_append _ pat)

/-- Where a pattern occurs there is a first place. -/
theorem exists_clear (h : pat <:+: s) : ∃ a b, s = a ++ pat ++ b ∧ Clear pat a := by
  induction s with
  | nil =>
    obtain rfl := List.infix_nil.mp h
    exact ⟨[], [], rfl, clear_nil⟩
  | cons c s ih =>
    by_cases hc : pat <+: c :: s
    · obtain ⟨b, hb⟩ := hc
      exact ⟨[], b, hb.symm, clear_nil⟩
    · have hs : pat <:+: s := (List.infix_cons_iff.mp h).resolve_left hc
      obtain ⟨a, b, rfl, ha⟩ := ih hs
      refine ⟨c :: a, b, rfl, clear_cons_iff.mpr ⟨?_, ha⟩⟩
      intro hx
      exact hc (hx.trans (List.prefix_append _ b))

theorem Separates.ne_nil (h : Separates pat ps) : ps ≠ [] := by
  cases h
  all_goals exact List.cons_ne_nil _ _

theorem separates_singleton_iff : Separates pat [a] ↔ ¬ pat <:+: a := by
  constructor
  · intro h
    cases h with
    | last _ ha => exact ha
    | cons _ _ _ hs => exact absurd rfl hs.ne_nil
  · exact .last a

theorem separates_cons_cons_iff :
    Separates pat (a :: b :: ps) ↔ Clear pat a ∧ Separates pat (b :: ps) := by
  constructor
  · intro h
    cases h with
    | cons _ _ ha hs => exact ⟨ha, hs⟩
  · rintro ⟨ha, hs⟩
    exact .cons a _ ha hs

theorem separates_concat_iff :
    Separates pat (ps ++ [a]) ↔ (∀ p ∈ ps, Clear pat p) ∧ ¬ pat <:+: a := by
  induction ps with
  | nil =>
    rw [List.nil_append, separates_singleton_iff]
    exact (and_iff_right fun _ h => nomatch h).symm
  | cons p ps ih =>
    obtain ⟨q, qs, hq⟩ := List.exists_cons_of_ne_nil (List.concat_ne_nil a ps)
    rw [List.cons_append, hq, separates_cons_cons_iff, ← hq, ih, List.forall_mem_cons, and_assoc]

instance decidableSeparates (pat : List Char) : DecidablePred (Separates pat)
  | [] => isFalse fun h => h.ne_nil rfl
  | [_] => decidable_of_iff _ separates_singleton_iff.symm
  | _ :: b :: ps =>
    have := decidableSeparates pat (b :: ps)
    decidable_of_iff _ separates_cons_cons_iff.symm

theorem intercalate_cons (h : ps ≠ []) :
    pat.intercalate (a :: ps) = a ++ pat ++ pat.intercalate ps := by
  obtain ⟨b, qs, rfl⟩ := List.exists_cons_of_ne_nil h
  exact List.intercalate_cons_cons

theorem intercalate_concat (h : ps ≠ []) :
    pat.intercalate (ps ++ [a]) = pat.intercalate ps ++ pat ++ a := by
  induction ps with
  | nil => exact absurd rfl h
  | cons p ps ih =>
    by_cases hps : ps = []
    · rw [hps, List.singleton_append, List.intercalate_cons_cons, List.intercalate_singleton,
        List.intercalate_singleton]
    · have hne : ps ++ [a] ≠ [] := List.concat_ne_nil a ps
      rw [List.cons_append, intercalate_cons hne, intercalate_cons hps, ih hps]
      simp only [List.append_assoc]

theorem intercalate_consFirst (h : ps ≠ []) :
    pat.intercalate (consFirst c ps) = c :: pat.intercalate ps := by
  obtain ⟨p, qs, rfl⟩ := List.exists_cons_of_ne_nil h
  cases qs with
  | nil => rw [consFirst, List.intercalate_singleton, List.intercalate_singleton]
  | cons q qs => rw [consFirst, List.intercalate_cons_cons, List.intercalate_cons_cons]; rfl

/-! ## Splitting -/

theorem splitFrom_append (h : a.length = k) : splitFrom pat k (a ++ s) = splitFrom pat 0 s := by
  induction a generalizing k with
  | nil =>
    subst h
    rfl
  | cons x a ih =>
    subst h
    exact ih rfl

theorem splitOn_of_absent (h : ¬ pat <:+: s) : splitOn pat s = [s] := by
  induction s with
  | nil => rfl
  | cons c s ih =>
    rw [List.infix_cons_iff, not_or, ← List.isPrefixOf_iff_prefix] at h
    have hs : splitFrom pat 0 s = [s] := ih h.2
    rw [splitOn, splitFrom, if_neg h.1, hs]
    rfl

theorem splitOn_append (hp : pat ≠ []) (ha : Clear pat a) :
    splitOn pat (a ++ pat ++ b) = a :: splitOn pat b := by
  induction a with
  | nil =>
    obtain ⟨x, r, rfl⟩ := List.exists_cons_of_ne_nil hp
    have hx : (x :: r).isPrefixOf (x :: (r ++ b)) = true :=
      List.isPrefixOf_iff_prefix.mpr (List.prefix_append (x :: r) b)
    have hr : splitFrom (x :: r) r.length (r ++ b) = splitFrom (x :: r) 0 b := splitFrom_append rfl
    rw [splitOn, List.nil_append, List.cons_append, splitFrom, if_pos hx]
    exact congrArg ([] :: ·) hr
  | cons c a ih =>
    have hc : ¬ pat.isPrefixOf (c :: (a ++ pat ++ b)) = true := by
      rw [List.isPrefixOf_iff_prefix]
      exact ha.not_at_start
    have hr : splitFrom pat 0 (a ++ pat ++ b) = a :: splitOn pat b := ih (clear_cons_iff.mp ha).2
    rw [splitOn, List.cons_append, List.cons_append, splitFrom, if_neg hc, hr]
    rfl

theorem splitOn_intercalate (hp : pat ≠ []) (h : Separates pat ps) :
    splitOn pat (pat.intercalate ps) = ps := by
  induction h with
  | last a ha => rw [List.intercalate_singleton, splitOn_of_absent ha]
  | cons a ps ha hs ih => rw [intercalate_cons hs.ne_nil, splitOn_append hp ha, ih]

/-- The pieces that are found are separated, and joining them gives the text back. -/
theorem separates_splitOn (hp : pat ≠ []) (s : List Char) :
    Separates pat (splitOn pat s) ∧ pat.intercalate (splitOn pat s) = s := by
  -- on the length: what follows the first occurrence is split in turn
  induction hl : s.length using Nat.strong_induction_on generalizing s with
  | h l ih =>
    by_cases h : pat <:+: s
    · obtain ⟨a, b, rfl, ha⟩ := exists_clear h
      have hlt : b.length < l := by
        have := List.length_pos_iff.mpr hp
        simp only [List.length_append] at hl
        omega
      obtain ⟨hs, hj⟩ := ih b.length hlt b rfl
      rw [splitOn_append hp ha]
      refine ⟨.cons a _ ha hs, ?_⟩
      rw [intercalate_cons hs.ne_nil, hj]
    · rw [splitOn_of_absent h]
      exact ⟨.last s h, List.intercalate_singleton⟩

theorem splitOn_eq_iff (hp : pat ≠ []) :
    splitOn pat s = ps ↔ Separates pat ps ∧ pat.intercalate ps = s := by
  constructor
  · rintro rfl
    exact separates_splitOn hp s
  · rintro ⟨h, rfl⟩
    exact splitOn_intercalate hp h

/-! ## Replacing -/

theorem replaceFrom_eq_intercalate (pat new : List Char) (k : Nat) (s : List Char) :
    replaceFrom pat new k s = new.intercalate (splitFrom pat k s) := by
  fun_induction splitFrom pat k s with
  | case1 k => rw [replaceFrom, List.intercalate_singleton]
  | case2 k c r ih => rw [replaceFrom, ih]
  | case3 c r hc ih =>
    rw [replaceFrom, if_pos hc, intercalate_cons (splitFrom_ne_nil _ _ _), ih]
    rfl
  | case4 c r hc ih => rw [replaceFrom, if_neg hc, intercalate_consFirst (splitFrom_ne_nil _ _ _), ih]

/-- Replacing puts another text between the pieces. -/
theorem replaceAll_eq_intercalate (pat new s : List Char) :
    replaceAll pat new s = new.intercalate (splitOn pat s) :=
  replaceFrom_eq_intercalate pat new 0 s

theorem replaceAll_of_absent (h : ¬ pat <:+: s) : replaceAll pat new s = s := by
  rw [replaceAll_eq_intercalate, splitOn_of_absent h, List.intercalate_singleton]

/-! ## Two patterns between the same pieces -/

theorem prefix_intercalate (pat a : List Char) (ps : List (List Char)) :
    a <+: pat.intercalate (a :: ps) := by
  by_cases hps : ps = []
  · rw [hps, List.intercalate_singleton]
  · rw [intercalate_cons hps, List.append_assoc]
    exact List.prefix_append a _

/-- A first piece that is longer than another one of the same text would hold the pattern. -/
theorem Separates.first_length_le {qs : List (List Char)} (h : Separates pat (a :: ps))
    (he : pat.intercalate (a :: ps) = pat.intercalate (b :: qs)) : a.length ≤ b.length := by
  by_contra hlt
  have hb : b <+: a := List.prefix_of_prefix_length_le (he ▸ prefix_intercalate pat b qs)
    (prefix_intercalate pat a ps) (by omega)
  obtain ⟨t, rfl⟩ := hb
  have ht : t ≠ [] := by
    rintro rfl
    simp at hlt
  -- what follows the shorter piece is the pattern
  have hpat (r : List Char) (hr : b ++ r = pat.intercalate (b :: qs)) (hne : r ≠ []) :
      pat <+: r := by
    have hqs : qs ≠ [] := by
      rintro rfl
      rw [List.intercalate_singleton, List.append_right_eq_self] at hr
      exact hne hr
    rw [intercalate_cons hqs, List.append_assoc, List.append_cancel_left_eq] at hr
    exact ⟨_, hr.symm⟩
  cases h with
  | last _ ha =>
    rw [List.intercalate_singleton] at he
    exact ha ((hpat t he ht).isInfix.trans (List.suffix_append b t).isInfix)
  | cons _ _ ha hs =>
    rw [intercalate_cons hs.ne_nil, List.append_assoc, List.append_assoc, ← List.append_assoc t] at he
    have hx := hpat _ he (by simp [ht])
    exact ha t (List.suffix_append b t) ht
      (List.prefix_of_prefix_length_le hx (List.prefix_append _ _) (by simp))

/-- Pieces between which two patterns can be told from the texts they join to. -/
theorem Separates.eq_of_intercalate {other : List Char} {qs : List (List Char)} (hp : pat ≠ [])
    (h : Separates pat ps) (hq : Separates other qs)
    (he : pat.intercalate ps = pat.intercalate qs)
    (ho : other.intercalate ps = other.intercalate qs) : ps = qs := by
  induction ps generalizing qs with
  | nil => exact absurd rfl h.ne_nil
  | cons a ps ih =>
    obtain ⟨b, qs, rfl⟩ := List.exists_cons_of_ne_nil hq.ne_nil
    have hlength : a.length = b.length :=
      Nat.le_antisymm (h.first_length_le he) (hq.first_length_le ho.symm)
    have ha : a <+: b := List.prefix_of_prefix_length_le (prefix_intercalate pat a ps)
      (he ▸ prefix_intercalate pat b qs) hlength.le
    obtain rfl : a = b := ha.eq_of_length hlength
    have hempty : ps = [] ↔ qs = [] := by
      constructor
      · rintro rfl
        by_contra hqs
        rw [List.intercalate_singleton, intercalate_cons hqs, List.append_assoc] at he
        simp [hp] at he
      · rintro rfl
        by_contra hps
        rw [List.intercalate_singleton, intercalate_cons hps, List.append_assoc] at he
        simp [hp] at he
    by_cases hps : ps = []
    · rw [hps, hempty.mp hps]
    · have hqs : qs ≠ [] := fun hqs => hps (hempty.mpr hqs)
      rw [intercalate_cons hps, intercalate_cons hqs, List.append_cancel_left_eq] at he ho
      cases h with
      | last => exact absurd rfl hps
      | cons _ _ _ hs =>
        cases hq with
        | last => exact absurd rfl hqs
        | cons _ _ _ hr => rw [ih hs hr he ho]

/-- A pattern that is put for another one between pieces is replaced by it again exactly when it
separates the pieces too. -/
theorem replaceAll_intercalate_iff {other : List Char} (hp : pat ≠ []) (h : Separates other ps) :
    replaceAll pat other (pat.intercalate ps) = other.intercalate ps ↔ Separates pat ps := by
  rw [replaceAll_eq_intercalate]
  obtain ⟨hs, hj⟩ := separates_splitOn hp (pat.intercalate ps)
  constructor
  · intro he
    rwa [hs.eq_of_intercalate hp h hj he] at hs
  · intro hsep
    rw [splitOn_intercalate hp hsep]

/-! ## Patterns that overlap themselves -/

/-- The beginnings of a pattern behind which it can begin again before it has ended. -/
def overlaps (pat : List Char) : List (List Char) :=
  pat.inits.filter fun t => t ≠ [] ∧ t ≠ pat ∧ pat.drop t.length <+: pat

theorem mem_overlaps {t : List Char} :
    t ∈ overlaps pat ↔ t ≠ [] ∧ t ≠ pat ∧ ∃ u, pat = t ++ u ∧ u <+: pat := by
  rw [overlaps, List.mem_filter, List.mem_inits, decide_eq_true_eq]
  constructor
  · rintro ⟨⟨u, rfl⟩, hne, hproper, hu⟩
    rw [List.drop_left] at hu
    exact ⟨hne, hproper, u, rfl, hu⟩
  · rintro ⟨hne, hproper, u, rfl, hu⟩
    refine ⟨List.prefix_append t u, hne, hproper, ?_⟩
    rwa [List.drop_left]

/-- A pattern that is not found in a text and begins at its end overlaps itself. -/
theorem clear_iff (hp : pat ≠ []) : Clear pat a ↔ ¬ pat <:+: a ∧ ∀ t ∈ overlaps pat, ¬ t <:+ a := by
  constructor
  · intro h
    refine ⟨h.absent hp, fun t ht hend => ?_⟩
    obtain ⟨hne, -, u, rfl, hu⟩ := mem_overlaps.mp ht
    exact h t hend hne ((List.prefix_append_right_inj t).mpr hu)
  · rintro ⟨hfree, hends⟩ t ht hne hpat
    by_cases hl : pat.length ≤ t.length
    · have hin : pat <+: t := List.prefix_of_prefix_length_le hpat (List.prefix_append t pat) hl
      exact hfree (hin.isInfix.trans ht.isInfix)
    · -- the pattern begins with `t`, so its end behind that begins it too
      have hbegin : t <+: pat :=
        List.prefix_of_prefix_length_le (List.prefix_append t pat) hpat (by omega)
      obtain ⟨u, rfl⟩ := hbegin
      rw [List.prefix_append_right_inj] at hpat
      refine hends t (mem_overlaps.mpr ⟨hne, ?_, u, rfl, hpat⟩) ht
      intro hall
      rw [← hall] at hl
      exact hl le_rfl

/-- No proper part at the end of a pattern also begins it. -/
def Unbordered (pat : List Char) : Prop := ∀ t, t <:+ pat → t <+: pat → t = [] ∨ t = pat

theorem clear_of_unbordered (h : Unbordered pat) (ha : ¬ pat <:+: a) : Clear pat a := by
  have hp : pat ≠ [] := by
    rintro rfl
    exact ha List.nil_infix
  refine (clear_iff hp).mpr ⟨ha, fun t ht => ?_⟩
  obtain ⟨hne, hproper, u, rfl, hu⟩ := mem_overlaps.mp ht
  rcases h u (List.suffix_append t u) hu with rfl | hu
  · exact absurd (List.append_nil t).symm hproper
  · exact absurd (List.self_eq_append_left.mp hu) hne

theorem Separates.absent (hp : pat ≠ []) (h : Separates pat ps) : ∀ p ∈ ps, ¬ pat <:+: p := by
  induction h with
  | last a ha => exact List.forall_mem_singleton.mpr ha
  | cons a ps ha _ ih => exact List.forall_mem_cons.mpr ⟨ha.absent hp, ih⟩

theorem separates_iff_of_unbordered (hp : pat ≠ []) (h : Unbordered pat) :
    Separates pat ps ↔ ps ≠ [] ∧ ∀ p ∈ ps, ¬ pat <:+: p := by
  constructor
  · exact fun hs => ⟨hs.ne_nil, hs.absent hp⟩
  · rintro ⟨hne, hfree⟩
    induction ps with
    | nil => exact absurd rfl hne
    | cons a ps ih =>
      obtain ⟨ha, hps⟩ := List.forall_mem_cons.mp hfree
      by_cases hn : ps = []
      · rw [hn]
        exact .last a ha
      · exact .cons a ps (clear_of_unbordered h ha) (ih hn hps)

theorem after?_eq_none_iff : after? pat s = none ↔ ¬ pat <+: s := by
  rw [Option.eq_none_iff_forall_ne_some]
  constructor
  · rintro h ⟨r, rfl⟩
    exact h r (after?_eq_some_iff.mpr rfl)
  · intro h r hr
    exact h ⟨r, (after?_eq_some_iff.mp hr).symm⟩

theorem cutLast_eq_none (h : ¬ pat <:+: s) : cutLast pat s = none := by
  induction s with
  | nil => rfl
  | cons c s ih =>
    rw [List.infix_cons_iff, not_or] at h
    rw [cutLast, ih h.2, after?_eq_none_iff.mpr h.1]
    rfl

theorem cutLast_eq_some (h : cutLast pat s = some (a, b)) : s = a ++ pat ++ b := by
  induction s generalizing a b with
  | nil => cases h
  | cons c s ih =>
    rw [cutLast] at h
    cases hc : cutLast pat s with
    | none =>
      rw [hc] at h
      obtain ⟨r, hr, he⟩ := Option.map_eq_some_iff.mp h
      cases he
      exact after?_eq_some_iff.mp hr
    | some found =>
      rw [hc] at h
      cases h
      rw [ih hc]
      rfl

/-- An occurrence in what follows the first letter of the pattern would overlap it. -/
theorem not_infix_tail {x : Char} (h : Unbordered (x :: pat)) (hb : ¬ x :: pat <:+: b) :
    ¬ x :: pat <:+: pat ++ b := by
  rintro ⟨u, v, huv⟩
  rw [List.append_assoc, List.append_eq_append_iff] at huv
  rcases huv with ⟨t, ht, hv⟩ | ⟨t, -, rfl⟩
  · have hend : t <:+ x :: pat := ⟨x :: u, by rw [ht, List.cons_append]⟩
    have hl : t.length ≤ pat.length := by rw [ht, List.length_append]; omega
    have hbegin : t <+: x :: pat := List.prefix_of_prefix_length_le (hv ▸ List.prefix_append t b)
      (List.prefix_append _ v) (Nat.le_succ_of_le hl)
    rcases h t hend hbegin with rfl | rfl
    · exact hb ⟨[], v, hv⟩
    · exact absurd hl (Nat.not_succ_le_self _)
  · exact hb ⟨t, v, List.append_assoc t _ v⟩

theorem cutLast_append (hp : pat ≠ []) (h : Unbordered pat) (hb : ¬ pat <:+: b) :
    cutLast pat (a ++ pat ++ b) = some (a, b) := by
  induction a with
  | nil =>
    obtain ⟨x, r, rfl⟩ := List.exists_cons_of_ne_nil hp
    have hr : cutLast (x :: r) (r ++ b) = none := cutLast_eq_none (not_infix_tail h hb)
    have hx : after? (x :: r) (x :: (r ++ b)) = some b := after?_eq_some_iff.mpr rfl
    rw [List.nil_append, List.cons_append, cutLast, hr, hx]
    rfl
  | cons c a ih =>
    rw [List.cons_append, List.cons_append, cutLast, ih]

theorem letters_length_ne_zero (x : Char) (r : List Char) : (letters (x :: r)).length ≠ 0 := by
  cases r with
  | nil => exact Nat.one_ne_zero
  | cons y r =>
    rw [letters]
    split
    all_goals exact Nat.succ_ne_zero _

/-- One letter is a character or a pair of a mark and an index. -/
theorem letter_cases (h : (letters pat).length = 1) :
    (∃ c, pat = [c]) ∨ ∃ m i, pat = [m, i] ∧ isMark m = true ∧ isIndex i = true := by
  fun_cases letters pat with
  | case1 => simp [letters] at h
  | case2 c => exact .inl ⟨c, rfl⟩
  | case3 m i r hpair =>
    rw [Bool.and_eq_true] at hpair
    rw [letters, if_pos (by simpa using hpair), List.length_cons] at h
    cases r with
    | nil => exact .inr ⟨m, i, rfl, hpair⟩
    | cons x r => exact absurd (Nat.succ.inj h) (letters_length_ne_zero x r)
  | case4 c d r hpair =>
    rw [letters, if_neg hpair, List.length_cons] at h
    exact absurd (Nat.succ.inj h) (letters_length_ne_zero d r)

/-- One letter does not overlap itself: the characters of a pair are of different classes. -/
theorem unbordered_of_letter (h : (letters pat).length = 1) : Unbordered pat := by
  intro t ht hbegin
  rcases letter_cases h with ⟨c, rfl⟩ | ⟨m, i, rfl, hm, hi⟩
  · rcases List.suffix_cons_iff.mp ht with rfl | ht
    · exact .inr rfl
    · exact .inl (List.suffix_nil.mp ht)
  · have hne : m ≠ i := by
      rintro rfl
      simp only [isMark, isIndex, Bool.and_eq_true, decide_eq_true_eq] at hm hi
      omega
    rcases List.suffix_cons_iff.mp ht with rfl | ht
    · exact .inr rfl
    · rcases List.suffix_cons_iff.mp ht with rfl | ht
      · obtain ⟨_, hi⟩ := hbegin
        exact absurd (List.cons.inj hi).1.symm hne
      · exact .inl (List.suffix_nil.mp ht)

/-! ## Texts -/

theorem occursIn_iff : occursIn pat s = true ↔ pat <:+: s := by
  induction s with
  | nil => rw [occursIn, List.isEmpty_iff, List.infix_nil]
  | cons c s ih =>
    rw [occursIn, Bool.or_eq_true, List.isPrefixOf_iff_prefix, ih, List.infix_cons_iff]

theorem contains_iff {p t : String} : contains p t = true ↔ p.toList <:+: t.toList := occursIn_iff

theorem contains_eq_false_iff {p t : String} : contains p t = false ↔ ¬ p.toList <:+: t.toList := by
  rw [← Bool.not_eq_true, contains_iff]

theorem startsWith_iff {p t : String} : startsWith p t = true ↔ p.toList <+: t.toList :=
  List.isPrefixOf_iff_prefix

theorem map_toList_split (sep t : String) :
    (split sep t).map String.toList = splitOn sep.toList t.toList := by
  have hid : String.toList ∘ String.ofList = id := funext fun _ => String.toList_ofList
  rw [split, List.map_map, hid, List.map_id]

theorem toList_join (sep : String) (ts : List String) :
    (join sep ts).toList = sep.toList.intercalate (ts.map String.toList) := by
  fun_induction join sep ts with
  | case1 => rfl
  | case2 t => rw [List.map_singleton, List.intercalate_singleton]
  | case3 t u r ih =>
    rw [String.toList_append, String.toList_append, ih]
    exact (intercalate_cons (List.cons_ne_nil _ _)).symm

theorem separates_letter_iff : Separates [c] ps ↔ ps ≠ [] ∧ ∀ p ∈ ps, c ∉ p := by
  rw [separates_iff_of_unbordered (List.cons_ne_nil c []) (unbordered_of_letter rfl)]
  simp only [List.singleton_infix_iff]

theorem takeWhile_ne_append (h : c ∉ a) : (a ++ c :: b).takeWhile (· ≠ c) = a := by
  rw [List.takeWhile_append_of_pos]
  · rw [List.takeWhile_cons_of_neg (by simp), List.append_nil]
  · intro x hx
    simpa using fun hc : x = c => h (hc ▸ hx)

theorem notMem_intercalate {pat : List Char} {c : Char} (hp : c ∉ pat) (h : ∀ s ∈ ds, c ∉ s) :
    c ∉ pat.intercalate ds := by
  induction ds with
  | nil => exact List.not_mem_nil
  | cons d ds ih =>
    obtain ⟨hd, hrest⟩ := List.forall_mem_cons.mp h
    by_cases hnil : ds = []
    · rw [hnil, List.intercalate_singleton]
      exact hd
    · rw [intercalate_cons hnil, List.mem_append, List.mem_append]
      rintro ((hc | hc) | hc)
      · exact hd hc
      · exact hp hc
      · exact ih hrest hc

theorem notMem_join {sep : String} {c : Char} {ts : List String} (hs : c ∉ sep.toList)
    (h : ∀ t ∈ ts, c ∉ t.toList) : c ∉ (join sep ts).toList := by
  rw [toList_join]
  exact notMem_intercalate hs (List.forall_mem_map.mpr h)

/-- Texts that are joined by a character that none of them holds are taken apart there. -/
theorem split_join {sep : String} {c : Char} {ts : List String} (hs : sep.toList = [c])
    (hne : ts ≠ []) (h : ∀ t ∈ ts, c ∉ t.toList) : split sep (join sep ts) = ts := by
  have hsep : Separates [c] (ts.map String.toList) := by
    rw [separates_letter_iff]
    exact ⟨by simpa using hne, List.forall_mem_map.mpr h⟩
  have hid : String.ofList ∘ String.toList = id := funext fun _ => String.ofList_toList
  rw [split, toList_join, hs, splitOn_intercalate (List.cons_ne_nil c []) hsep, List.map_map, hid,
    List.map_id]

theorem join_split {sep : String} (hs : sep.toList ≠ []) (t : String) :
    join sep (split sep t) = t := by
  rw [← String.toList_inj, toList_join, map_toList_split]
  exact (separates_splitOn hs t.toList).2

/-- A text is cut in two at the first occurrence of a character. -/
theorem splitAtMost_two {sep s t : String} (hs : sep.toList = [c]) (hc : c ∉ s.toList) :
    splitAtMost 2 sep (s ++ sep ++ t) = [s, t] := by
  have hne : sep.toList ≠ [] := hs ▸ List.cons_ne_nil c []
  have hclear : Clear sep.toList s.toList := by
    rw [hs]
    apply clear_of_unbordered (unbordered_of_letter rfl)
    rwa [List.singleton_infix_iff]
  have hsplit : split sep (s ++ sep ++ t) = s :: split sep t := by
    rw [split, String.toList_append, String.toList_append, splitOn_append hne hclear,
      List.map_cons, String.ofList_toList]
    rfl
  have hjoin := join_split hne t
  rw [splitAtMost, hsplit]
  split_ifs with hl
  · have hsome : (split sep t).length ≠ 0 := by
      rw [split, List.length_map, Ne, List.length_eq_zero_iff]
      exact splitFrom_ne_nil sep.toList t.toList 0
    rw [List.length_cons] at hl
    obtain ⟨u, hu⟩ := List.length_eq_one_iff.mp (show (split sep t).length = 1 by omega)
    rw [hu, join] at hjoin
    rw [hu, hjoin]
  · rw [List.drop_succ_cons, List.drop_zero, hjoin]
    rfl

end ChunkBuild.Text
