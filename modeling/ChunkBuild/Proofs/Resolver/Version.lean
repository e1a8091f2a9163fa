import ChunkBuild.Proofs.Text.Numeral
import ChunkBuild.Resolver.Calculator
/-! # The first version in a text

A version is a `v`, digits of any script and a dot. Main statement: the number of the first version in
a text is read as the major version unless it has more digits than are read, and a text with no version
has none. -/
namespace ChunkBuild.Calculator

open ChunkBuild.Text

variable {text digits before after : List Char} {c : Char} {stdout : String} {ds es : List Nat}

structure IsVersionAt (before digits after text : List Char) : Prop where
  text_eq : text = before ++ 'v' :: (digits ++ '.' :: after)
  ne_nil : digits ≠ []
  digit : ∀ c ∈ digits, isDigit c = true

/-- The digits of a version with none before it. -/
def IsFirstVersion (digits text : List Char) : Prop :=
  ∃ before after, IsVersionAt before digits after text ∧
    ∀ b d a, IsVersionAt b d a text → before.length ≤ b.length

def HasVersion (stdout : String) (ds : List Nat) : Prop :=
  ∃ digits, IsFirstVersion digits stdout.toList ∧
    List.Forall₂ (fun c d => digitValue? c = some d) digits ds

/-! ## Looking for a version -/

theorem isVersionAt_cons_iff {x : Char} : IsVersionAt (x :: before) digits after (c :: text) ↔
    x = c ∧ IsVersionAt before digits after text := by
  constructor
  · rintro ⟨htext, hne, hdigit⟩
    obtain ⟨hc, htext⟩ := List.cons.inj htext
    exact ⟨hc.symm, htext, hne, hdigit⟩
  · rintro ⟨rfl, htext, hne, hdigit⟩
    exact ⟨congrArg (List.cons x) htext, hne, hdigit⟩

/-- The dot ends the run of digits, as it is none. -/
theorem versionHere?_eq_some_iff :
    versionHere? text = some digits ↔ ∃ after, IsVersionAt [] digits after text := by
  constructor
  · intro h
    unfold versionHere? at h
    split at h
    · next r =>
      split at h
      · next d ds after hdigits hafter =>
        cases h
        have hr := List.takeWhile_append_dropWhile (p := isDigit) (l := r)
        rw [hdigits, hafter] at hr
        refine ⟨after, congrArg _ hr.symm, List.cons_ne_nil d ds, fun c hc => ?_⟩
        rw [← hdigits] at hc
        exact List.mem_takeWhile_imp hc
      · cases h
    · cases h
  · rintro ⟨after, rfl, hne, hdigit⟩
    have hdot : isDigit '.' = false := by decide
    obtain ⟨d, ds, rfl⟩ := List.exists_cons_of_ne_nil hne
    rw [List.nil_append, versionHere?, List.takeWhile_append_of_pos hdigit,
      List.dropWhile_append_of_pos hdigit, List.takeWhile_cons_of_neg (by simp [hdot]),
      List.dropWhile_cons_of_neg (by simp [hdot]), List.append_nil]
    rfl

/-- What comes first is at the start of a text, or else first in the rest. -/
theorem isFirstVersion_cons_iff : IsFirstVersion digits (c :: text) ↔
    (∃ after, IsVersionAt [] digits after (c :: text)) ∨
      (∀ d a, ¬ IsVersionAt [] d a (c :: text)) ∧ IsFirstVersion digits text := by
  constructor
  · rintro ⟨before, after, h, hfirst⟩
    cases before with
    | nil => exact .inl ⟨after, h⟩
    | cons x before =>
      obtain ⟨-, h⟩ := isVersionAt_cons_iff.mp h
      refine .inr ⟨fun d a hhere => ?_, before, after, h, fun b d a hb => ?_⟩
      · exact absurd (hfirst [] d a hhere) (by simp)
      · have hlength := hfirst (c :: b) d a (isVersionAt_cons_iff.mpr ⟨rfl, hb⟩)
        rwa [List.length_cons, List.length_cons, Nat.add_le_add_iff_right] at hlength
  · rintro (⟨after, h⟩ | ⟨hno, before, after, h, hfirst⟩)
    · exact ⟨[], after, h, fun b _ _ _ => Nat.zero_le b.length⟩
    · refine ⟨c :: before, after, isVersionAt_cons_iff.mpr ⟨rfl, h⟩, fun b d a hb => ?_⟩
      cases b with
      | nil => exact absurd hb (hno d a)
      | cons x b =>
        obtain ⟨-, hb⟩ := isVersionAt_cons_iff.mp hb
        exact Nat.succ_le_succ (hfirst b d a hb)

theorem not_isFirstVersion_nil : ¬ IsFirstVersion digits [] := by
  rintro ⟨before, after, h, -⟩
  have hlength := congrArg List.length h.text_eq
  simp at hlength

/-- The search finds the first version. -/
theorem versionDigits?_eq_some_iff :
    versionDigits? text = some digits ↔ IsFirstVersion digits text := by
  fun_induction versionDigits? text with
  | case1 => exact iff_of_false (Option.some_ne_none digits).symm not_isFirstVersion_nil
  | case2 c text ds hhere =>
    obtain ⟨after, hat⟩ := versionHere?_eq_some_iff.mp hhere
    rw [isFirstVersion_cons_iff, or_iff_left fun h => h.1 ds after hat,
      ← versionHere?_eq_some_iff, hhere]
  | case3 c text hhere ih =>
    have hno (d a) : ¬ IsVersionAt [] d a (c :: text) := fun hat => by
      rw [versionHere?_eq_some_iff.mpr ⟨a, hat⟩] at hhere
      cases hhere
    rw [ih, isFirstVersion_cons_iff, and_iff_right hno,
      or_iff_right fun ⟨a, hat⟩ => hno digits a hat]

/-! ## Reading a version -/

theorem exists_digit_values (h : ∀ c ∈ digits, isDigit c = true) :
    ∃ ds, List.Forall₂ (fun c d => digitValue? c = some d) digits ds := by
  refine ⟨digits.map fun c => (digitValue? c).getD 0, ?_⟩
  rw [List.forall₂_map_right_iff, List.forall₂_same]
  intro c hc
  obtain ⟨d, hd⟩ := Option.isSome_iff_exists.mp (h c hc)
  rw [hd, Option.getD_some]

theorem version?_of_hasVersion (h : HasVersion stdout ds) :
    version? stdout =
      if ds.length > digitLimit then .error (.tooLong ds.length) else .ok (some (ofDigits ds)) := by
  obtain ⟨digits, hfirst, hvalues⟩ := h
  have hgroups : AreDigitGroups [digits] ds := by
    obtain ⟨_, _, hat, -⟩ := hfirst
    refine ⟨List.cons_ne_nil _ _, List.forall_mem_singleton.mpr hat.ne_nil, ?_⟩
    rwa [List.flatten_singleton]
  have hread := hgroups.readInteger_eq .missing (List.forall_mem_nil _) (List.forall_mem_nil _)
    (s := String.ofList digits) (by simp [List.intercalate_singleton])
  rw [version?, versionDigits?_eq_some_iff.mpr hfirst]
  simp only [hread, Bool.false_eq_true, if_false]
  split_ifs <;> rfl

theorem version?_of_no_version (h : ∀ ds, ¬ HasVersion stdout ds) : version? stdout = .ok none := by
  cases hd : versionDigits? stdout.toList with
  | none => rw [version?, hd]
  | some digits =>
    have hfirst := versionDigits?_eq_some_iff.mp hd
    obtain ⟨_, _, hat, -⟩ := id hfirst
    obtain ⟨ds, hvalues⟩ := exists_digit_values hat.digit
    exact absurd ⟨digits, hfirst, hvalues⟩ (h ds)

theorem HasVersion.unique (h : HasVersion stdout ds) (h' : HasVersion stdout es) : ds = es := by
  obtain ⟨digits, hfirst, hvalues⟩ := h
  obtain ⟨digits', hfirst', hvalues'⟩ := h'
  have hsame : digits = digits' := Option.some.inj
    ((versionDigits?_eq_some_iff.mpr hfirst).symm.trans (versionDigits?_eq_some_iff.mpr hfirst'))
  subst hsame
  have hfunctional : Relator.RightUnique fun c d => digitValue? c = some d :=
    fun _ _ _ hx hy => Option.some.inj (hx.symm.trans hy)
  exact hfunctional.forall₂ hvalues hvalues'

end ChunkBuild.Calculator
