import ChunkBuild.Proofs.Text.Integer
import ChunkBuild.Proofs.Text.Lines
import Mathlib.Data.List.DropRight
import Mathlib.Data.List.Forall2
/-! # The grammar of written integers

An integer is written as blanks, a sign that may be missing, digits of any script in groups with single
underscores between them, and blanks again. Main statement: the texts that are read as an integer are
those of this form that have no more digits than are read. -/
namespace ChunkBuild.Text

variable {cs core sign : List Char} {ds : List Nat} {groups : List (List Char)} {c : Char}
  {s : String} {n : Int} {p : Char → Bool} {negative : Bool}

inductive IsSign : List Char → Bool → Prop where
  | missing : IsSign [] false
  | plus : IsSign ['+'] false
  | minus : IsSign ['-'] true

structure AreDigitGroups (groups : List (List Char)) (ds : List Nat) : Prop where
  ne_nil : groups ≠ []
  groups_ne_nil : ∀ g ∈ groups, g ≠ []
  values : List.Forall₂ (fun c d => digitValue? c = some d) groups.flatten ds

inductive IsInteger (s : String) : Int → Prop where
  | intro {before sign after : List Char} {groups : List (List Char)} {ds : List Nat}
    {negative : Bool} (htext : s.toList = before ++ (sign ++ ['_'].intercalate groups) ++ after)
    (hbefore : ∀ c ∈ before, isNumberBlank c = true)
    (hafter : ∀ c ∈ after, isNumberBlank c = true) (hsign : IsSign sign negative)
    (hgroups : AreDigitGroups groups ds) (hbound : ds.length ≤ digitLimit) :
    IsInteger s (if negative then -(ofDigits ds : Int) else ofDigits ds)

/-! ## Classes of characters -/

/-- Every script has its digits apart from the signs, the underscore and the blanks. -/
theorem digitValue?_of_apart (h : ∀ z ∈ digitZeros, c.toNat < z ∨ z + 10 ≤ c.toNat) :
    digitValue? c = none := by
  rw [digitValue?, Option.map_eq_none_iff, List.find?_eq_none]
  intro z hz hdigit
  simp only [Bool.and_eq_true, decide_eq_true_eq] at hdigit
  rcases h z hz with h | h <;> omega

theorem digitValue?_blank (h : isNumberBlank c = true) : digitValue? c = none := by
  have hapart : ∀ z ∈ digitZeros, ∀ k ∈ [9, 10, 11, 12, 13, 32, 0x85, 0xA0, 0x1680, 0x2000, 0x2001,
      0x2002, 0x2003, 0x2004, 0x2005, 0x2006, 0x2007, 0x2008, 0x2009, 0x200A, 0x2028, 0x2029,
      0x202F, 0x205F, 0x3000], k < z ∨ z + 10 ≤ k := by decide
  apply digitValue?_of_apart
  intro z hz
  apply hapart z hz
  simp only [isNumberBlank, isWideBlank, Bool.or_eq_true, Bool.and_eq_true, decide_eq_true_eq,
    beq_iff_eq] at h
  simp only [List.mem_cons, List.not_mem_nil, or_false]
  omega

theorem digitValue?_underscore : digitValue? '_' = none := by decide

theorem digitValue?_sign : digitValue? '-' = none ∧ digitValue? '+' = none := by decide

theorem not_blank_of_digit {d : Nat} (h : digitValue? c = some d) : isNumberBlank c = false := by
  by_contra hblank
  rw [Bool.not_eq_false] at hblank
  rw [digitValue?_blank hblank] at h
  cases h

/-! ## Trimming -/

theorem exists_trimmed (p : Char → Bool) (cs : List Char) :
    ∃ before after, cs = before ++ trimBy p cs ++ after ∧ (∀ c ∈ before, p c = true) ∧
      ∀ c ∈ after, p c = true := by
  refine ⟨cs.takeWhile p, (cs.dropWhile p).rtakeWhile p, ?_, ?_, ?_⟩
  · have hend : trimBy p cs ++ (cs.dropWhile p).rtakeWhile p = cs.dropWhile p :=
      List.rdropWhile_append_rtakeWhile
    rw [List.append_assoc, hend, List.takeWhile_append_dropWhile]
  · intro c hc
    exact List.mem_takeWhile_imp hc
  · intro c hc
    exact List.mem_rtakeWhile_imp hc

theorem trimBy_append {before after : List Char} (hbefore : ∀ c ∈ before, p c = true)
    (hafter : ∀ c ∈ after, p c = true) (hfirst : ∀ c ∈ core.head?, p c = false)
    (hlast : ∀ c ∈ core.getLast?, p c = false) : trimBy p (before ++ core ++ after) = core := by
  cases core with
  | nil =>
    have hall : (before ++ [] ++ after).dropWhile p = [] := by
      rw [List.dropWhile_eq_nil_iff]
      intro c hc
      rw [List.append_nil, List.mem_append] at hc
      exact hc.elim (hbefore c) (hafter c)
    rw [trimBy, hall]
    rfl
  | cons c r =>
    have hc : p c = false := hfirst c rfl
    have hdrop : (before ++ c :: r ++ after).dropWhile p = c :: r ++ after := by
      rw [List.append_assoc, List.dropWhile_append_of_pos hbefore, List.cons_append,
        List.dropWhile_cons_of_neg (by simp [hc])]
    have hafter' : after.reverse.dropWhile p = [] := by
      rw [List.dropWhile_eq_nil_iff]
      simpa using hafter
    rw [trimBy, hdrop, List.reverse_append, List.dropWhile_append, hafter', List.isEmpty_nil,
      if_pos rfl]
    exact List.rdropWhile_eq_self_iff.mpr fun hne hp =>
      absurd (hlast _ (List.getLast?_eq_some_getLast hne)) (by simp [hp])

/-! ## Groups of digits -/

theorem not_areDigitGroups_nil_cons : ¬ AreDigitGroups ([] :: groups) ds :=
  fun h => h.groups_ne_nil [] List.mem_cons_self rfl

/-- The first digit of a group and what follows it, in the group and behind it. -/
theorem areDigitGroups_cons_iff {g : List Char} : AreDigitGroups ((c :: g) :: groups) ds ↔
    ∃ d es, digitValue? c = some d ∧ ds = d :: es ∧ (∀ g ∈ groups, g ≠ []) ∧
      List.Forall₂ (fun c d => digitValue? c = some d) (g ++ groups.flatten) es := by
  constructor
  · rintro ⟨-, hne, hvalues⟩
    obtain ⟨d, es, hd, hes, rfl⟩ := List.forall₂_cons_left_iff.mp hvalues
    exact ⟨d, es, hd, rfl, (List.forall_mem_cons.mp hne).2, hes⟩
  · rintro ⟨d, es, hd, rfl, hne, hes⟩
    refine ⟨List.cons_ne_nil _ _, ?_, .cons hd hes⟩
    exact List.forall_mem_cons.mpr ⟨List.cons_ne_nil c g, hne⟩

theorem exists_splitOn_cons {d : Char} (h : c ≠ d) (r : List Char) :
    ∃ g gs, splitOn [d] r = g :: gs ∧ splitOn [d] (c :: r) = (c :: g) :: gs := by
  obtain ⟨g, gs, hr⟩ := List.exists_cons_of_ne_nil (splitFrom_ne_nil [d] r 0)
  refine ⟨g, gs, hr, ?_⟩
  have hr : splitOn [d] r = g :: gs := hr
  rw [splitOn_letter_of_ne h, hr, consFirst]

theorem bind_digit_eq_some {o : Option (List Nat)} :
    ((digitValue? c).bind fun d => o.map (d :: ·)) = some ds ↔
      ∃ d es, digitValue? c = some d ∧ ds = d :: es ∧ o = some es := by
  constructor
  · intro h
    obtain ⟨d, hd, h⟩ := Option.bind_eq_some_iff.mp h
    obtain ⟨es, hes, rfl⟩ := Option.map_eq_some_iff.mp h
    exact ⟨d, es, hd, rfl, hes⟩
  · rintro ⟨d, es, hd, rfl, rfl⟩
    rw [hd]
    rfl

/-- A run of digits is read group by group. -/
theorem digitRun_eq_some_iff : digitRun cs = some ds ↔ AreDigitGroups (splitOn ['_'] cs) ds := by
  -- an underscore is no digit, so a text that begins with one is refused on both sides
  have hunderscore {r : List Char} {o : Option (List Nat)} {ds : List Nat} :
      ((digitValue? '_').bind fun d => o.map (d :: ·)) = some ds ↔
        AreDigitGroups (splitOn ['_'] ('_' :: r)) ds := by
    rw [digitValue?_underscore, splitOn_letter_self]
    exact iff_of_false (Option.some_ne_none ds).symm not_areDigitGroups_nil_cons
  fun_induction digitRun cs generalizing ds with
  | case1 => exact iff_of_false (Option.some_ne_none ds).symm not_areDigitGroups_nil_cons
  | case2 c =>
    have hmap : (digitValue? c).map ([·]) =
        (digitValue? c).bind fun d => (some []).map (d :: ·) := by
      cases digitValue? c <;> rfl
    rw [hmap]
    by_cases hc : c = '_'
    · subst hc
      exact hunderscore
    · rw [splitOn_letter_of_ne hc, bind_digit_eq_some]
      refine Iff.trans ?_ areDigitGroups_cons_iff.symm
      simp [eq_comm]
  | case3 c r ih =>
    by_cases hc : c = '_'
    · subst hc
      exact hunderscore
    · rw [splitOn_letter_of_ne hc, splitOn_letter_self, consFirst, areDigitGroups_cons_iff,
        bind_digit_eq_some]
      refine exists_congr fun d => exists_congr fun es => and_congr_right fun _ =>
        and_congr_right fun _ => ih.trans ⟨fun h => ⟨h.groups_ne_nil, h.values⟩, fun h => ?_⟩
      exact ⟨splitFrom_ne_nil _ _ 0, h.1, h.2⟩
  | case4 c r hne hr ih =>
    by_cases hc : c = '_'
    · subst hc
      exact hunderscore
    · obtain ⟨x, q, rfl⟩ := List.exists_cons_of_ne_nil fun h => hne h
      have hx : x ≠ '_' := fun h => hr q (h ▸ rfl)
      obtain ⟨g, gs, -, hsplit⟩ := exists_splitOn_cons hx q
      rw [splitOn_letter_of_ne hc, hsplit, consFirst, areDigitGroups_cons_iff, bind_digit_eq_some]
      rw [hsplit] at ih
      refine exists_congr fun d => exists_congr fun es => and_congr_right fun _ =>
        and_congr_right fun _ => ih.trans ⟨fun h => ?_, fun h => ?_⟩
      · exact ⟨(List.forall_mem_cons.mp h.groups_ne_nil).2, h.values⟩
      · exact ⟨List.cons_ne_nil _ _, List.forall_mem_cons.mpr ⟨List.cons_ne_nil x g, h.1⟩, h.2⟩

theorem AreDigitGroups.digit (h : AreDigitGroups groups ds) {g : List Char} (hg : g ∈ groups)
    (hc : c ∈ g) : ∃ d, digitValue? c = some d := by
  have hmem : c ∈ groups.flatten := List.mem_flatten.mpr ⟨g, hg, hc⟩
  obtain ⟨i, hi, rfl⟩ := List.mem_iff_getElem.mp hmem
  exact ⟨_, h.values.get hi (h.values.length_eq ▸ hi)⟩

theorem AreDigitGroups.digitRun_eq (h : AreDigitGroups groups ds) :
    digitRun (['_'].intercalate groups) = some ds := by
  have hseparates : Separates ['_'] groups := by
    rw [separates_letter_iff]
    refine ⟨h.ne_nil, fun g hg hmem => ?_⟩
    obtain ⟨d, hd⟩ := h.digit hg hmem
    simp [digitValue?_underscore] at hd
  rw [digitRun_eq_some_iff, splitOn_intercalate (List.cons_ne_nil _ _) hseparates]
  exact h

theorem AreDigitGroups.exists_first (h : AreDigitGroups groups ds) :
    ∃ c r d, ['_'].intercalate groups = c :: r ∧ digitValue? c = some d := by
  obtain ⟨g, gs, rfl⟩ := List.exists_cons_of_ne_nil h.ne_nil
  obtain ⟨c, r, rfl⟩ := List.exists_cons_of_ne_nil (h.groups_ne_nil g List.mem_cons_self)
  obtain ⟨d, hd⟩ := h.digit List.mem_cons_self List.mem_cons_self
  obtain ⟨q, hq⟩ := prefix_intercalate ['_'] (c :: r) gs
  exact ⟨c, r ++ q, d, hq.symm, hd⟩

theorem AreDigitGroups.exists_last (h : AreDigitGroups groups ds) :
    ∃ r c d, ['_'].intercalate groups = r ++ [c] ∧ digitValue? c = some d := by
  rcases List.eq_nil_or_concat' groups with rfl | ⟨gs, g, rfl⟩
  · exact absurd rfl h.ne_nil
  rcases List.eq_nil_or_concat' g with rfl | ⟨r, c, rfl⟩
  · exact absurd rfl (h.groups_ne_nil [] List.mem_concat_self)
  obtain ⟨d, hd⟩ := h.digit List.mem_concat_self List.mem_concat_self
  by_cases hgs : gs = []
  · subst hgs
    exact ⟨r, c, d, List.intercalate_singleton, hd⟩
  · refine ⟨['_'].intercalate gs ++ ['_'] ++ r, c, d, ?_, hd⟩
    rw [intercalate_concat hgs, List.append_assoc _ r]

/-! ## Reading -/

theorem exists_sign (cs : List Char) :
    ∃ sign, IsSign sign (readSign cs).1 ∧ cs = sign ++ (readSign cs).2 := by
  unfold readSign
  split
  · exact ⟨['-'], .minus, rfl⟩
  · exact ⟨['+'], .plus, rfl⟩
  · exact ⟨[], .missing, rfl⟩

/-- No digit is a sign. -/
theorem IsSign.readSign_eq {d : Nat} {r : List Char} (h : IsSign sign negative)
    (hc : digitValue? c = some d) : readSign (sign ++ c :: r) = (negative, c :: r) := by
  cases h with
  | plus => rfl
  | minus => rfl
  | missing =>
    rw [List.nil_append, readSign]
    · intro q hq
      rw [(List.cons.inj hq).1, digitValue?_sign.1] at hc
      cases hc
    · intro q hq
      rw [(List.cons.inj hq).1, digitValue?_sign.2] at hc
      cases hc

theorem IsSign.not_blank (h : IsSign sign negative) : ∀ c ∈ sign, isNumberBlank c = false := by
  cases h with
  | missing => exact List.forall_mem_nil _
  | plus => exact List.forall_mem_singleton.mpr (by decide)
  | minus => exact List.forall_mem_singleton.mpr (by decide)

/-- What stands between the blanks begins with a sign or a digit and ends with a digit. -/
theorem AreDigitGroups.trimBy_eq (h : AreDigitGroups groups ds) (hsign : IsSign sign negative)
    {before after : List Char} (hbefore : ∀ c ∈ before, isNumberBlank c = true)
    (hafter : ∀ c ∈ after, isNumberBlank c = true) :
    trimBy isNumberBlank (before ++ (sign ++ ['_'].intercalate groups) ++ after) =
      sign ++ ['_'].intercalate groups := by
  apply trimBy_append hbefore hafter
  · obtain ⟨c, r, d, hfirst, hc⟩ := h.exists_first
    rw [hfirst]
    intro x hx
    cases sign with
    | nil =>
      cases hx
      exact not_blank_of_digit hc
    | cons y sign =>
      cases hx
      exact hsign.not_blank _ List.mem_cons_self
  · obtain ⟨r, c, d, hlast, hc⟩ := h.exists_last
    rw [hlast, ← List.append_assoc, List.getLast?_concat]
    rintro x ⟨⟩
    exact not_blank_of_digit hc

/-- What has the form of a written integer is read unless it has too many digits. -/
theorem AreDigitGroups.readInteger_eq (h : AreDigitGroups groups ds) (hsign : IsSign sign negative)
    {before after : List Char} (hbefore : ∀ c ∈ before, isNumberBlank c = true)
    (hafter : ∀ c ∈ after, isNumberBlank c = true)
    (htext : s.toList = before ++ (sign ++ ['_'].intercalate groups) ++ after) :
    readInteger s =
      if ds.length > digitLimit then .error (.tooLong ds.length)
      else .ok (if negative then -(ofDigits ds : Int) else ofDigits ds) := by
  obtain ⟨c, r, d, hfirst, hc⟩ := h.exists_first
  have hrun := h.digitRun_eq
  rw [hfirst] at hrun
  rw [readInteger, htext, h.trimBy_eq hsign hbefore hafter, hfirst, hsign.readSign_eq hc]
  simp only [hrun]

/-- The texts that are read as an integer. -/
theorem readInteger_eq_ok_iff : readInteger s = .ok n ↔ IsInteger s n := by
  constructor
  · intro h
    obtain ⟨before, after, htext, hbefore, hafter⟩ := exists_trimmed isNumberBlank s.toList
    obtain ⟨sign, hsign, hcore⟩ := exists_sign (trimBy isNumberBlank s.toList)
    rw [readInteger] at h
    generalize readSign (trimBy isNumberBlank s.toList) = signed at h hsign hcore
    obtain ⟨negative, body⟩ := signed
    cases hrun : digitRun body with
    | none => simp [hrun] at h
    | some ds =>
      simp only [hrun] at h
      split_ifs at h with hlong hnegative
      all_goals
        cases h
        have hgroups := digitRun_eq_some_iff.mp hrun
        have hjoined := (separates_splitOn (List.cons_ne_nil '_' []) body).2
        rw [hcore, ← hjoined] at htext
        have hinteger := IsInteger.intro htext hbefore hafter hsign hgroups (Nat.not_lt.mp hlong)
        simpa [hnegative] using hinteger
  · rintro ⟨htext, hbefore, hafter, hsign, hgroups, hbound⟩
    rw [hgroups.readInteger_eq hsign hbefore hafter htext, if_neg (Nat.not_lt.mpr hbound)]

theorem isInteger_natText {n : Nat} (h : n < 10 ^ digitLimit) : IsInteger (natText n) n :=
  readInteger_eq_ok_iff.mp (readInteger_natText h)

theorem IsInteger.natAbs_lt (h : IsInteger s n) : n.natAbs < 10 ^ digitLimit :=
  readInteger_lt (readInteger_eq_ok_iff.mpr h)

end ChunkBuild.Text
