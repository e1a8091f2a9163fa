import ChunkBuild.Proofs.Text.Lines
import ChunkBuild.Source.License
/-! # The grammar of license blocks

A block is a few lines, each with its own break, the third of which names a year and one of the
holders. Main statements: what is recognised at the start of a text is a block of the grammar, every
such block is recognised, and there is only one when no holder has a line feed in its name. -/
namespace ChunkBuild.Source

open ChunkBuild.Text

def Ended (line s : List Char) : Prop := s = line ++ ['\n'] ∨ s = line ++ ['\r', '\n']

/-- The line that names a year, in digits of any script, and one of the holders. -/
def IsNotice (holders : List (List Char)) (line : List Char) : Prop :=
  ∃ year holder, year ≠ [] ∧ (∀ c ∈ year, isDigit c = true) ∧ holder ∈ holders ∧
    line = " * Copyright ".toList ++ year ++ ' ' :: holder

/-- The lines behind the notice: perhaps a reservation, the license and the end of the comment. -/
def IsTerms (s : List Char) : Prop :=
  ∃ reserved license,
    (reserved = [] ∨ Ended " * All rights reserved.".toList reserved) ∧
    Ended " * SPDX-License-Identifier: Apache-2.0".toList license ∧
    s = reserved ++ license ++ " */".toList

def IsBlock (holders : List (List Char)) (s : List Char) : Prop :=
  ∃ opening tag notice named terms,
    Ended "/**".toList opening ∧ Ended " * @license".toList tag ∧
    IsNotice holders notice ∧ Ended notice named ∧ IsTerms terms ∧
    s = opening ++ tag ++ named ++ terms

variable {holders : List (List Char)} {line s t r rest : List Char} {b : Block}

/-! ## Lines -/

theorem Ended.append (h : Ended line t) (before : List Char) :
    Ended (before ++ line) (before ++ t) := by
  rcases h with rfl | rfl
  · exact .inl (List.append_assoc _ _ _).symm
  · exact .inr (List.append_assoc _ _ _).symm

theorem afterBreak?_eq_some_iff :
    afterBreak? s = some rest ↔ ∃ t, Ended [] t ∧ s = t ++ rest := by
  constructor
  · intro h
    unfold afterBreak? lineBreak? at h
    split at h
    · cases h
      exact ⟨_, .inr rfl, rfl⟩
    · cases h
      exact ⟨_, .inl rfl, rfl⟩
    · cases h
  · rintro ⟨t, rfl | rfl, rfl⟩
    · rfl
    · rfl

theorem after?_break_eq_some_iff : (after? line s).bind afterBreak? = some rest ↔
    ∃ t, Ended line t ∧ s = t ++ rest := by
  simp only [Option.bind_eq_some_iff, after?_eq_some_iff, afterBreak?_eq_some_iff]
  constructor
  · rintro ⟨_, rfl, t, ht, rfl⟩
    have hline := ht.append line
    rw [List.append_nil] at hline
    exact ⟨line ++ t, hline, (List.append_assoc _ _ _).symm⟩
  · rintro ⟨t, rfl | rfl, rfl⟩
    · exact ⟨_, List.append_assoc _ _ _, _, .inl rfl, rfl⟩
    · exact ⟨_, List.append_assoc _ _ _, _, .inr rfl, rfl⟩

theorem afterLine?_eq_some_iff {line : String} : afterLine? line s = some rest ↔
    ∃ t, Ended line.toList t ∧ s = t ++ rest :=
  after?_break_eq_some_iff

/-- A line and the return behind it hold no line feed. -/
theorem Ended.eq_concat (h : Ended line t) (hline : '\n' ∉ line) :
    ∃ u, '\n' ∉ u ∧ t = u ++ ['\n'] := by
  rcases h with rfl | rfl
  · exact ⟨line, hline, rfl⟩
  · refine ⟨line ++ ['\r'], ?_, by rw [List.append_assoc]; rfl⟩
    rw [List.mem_append, not_or]
    exact ⟨hline, by decide⟩

/-- A text has one first line, ended in one way. -/
theorem Ended.unique {other u x y : List Char} (h : Ended line t) (hu : Ended other u)
    (hline : '\n' ∉ line) (hother : '\n' ∉ other) (he : t ++ x = u ++ y) : t = u ∧ x = y := by
  obtain ⟨v, hv, rfl⟩ := h.eq_concat hline
  obtain ⟨w, hw, rfl⟩ := hu.eq_concat hother
  rw [List.append_assoc, List.append_assoc, List.singleton_append, List.singleton_append] at he
  have hvw : v = w := by
    rw [← takeWhile_ne_append (b := x) hv, he, takeWhile_ne_append hw]
  subst hvw
  exact ⟨rfl, List.tail_eq_of_cons_eq (List.append_cancel_left he)⟩

theorem IsNotice.no_feed (hfeed : ∀ h ∈ holders, '\n' ∉ h) (hn : IsNotice holders line) :
    '\n' ∉ line := by
  obtain ⟨year, holder, -, hdigits, hmem, rfl⟩ := hn
  have hyear : '\n' ∉ year := fun h => absurd (hdigits _ h) (by decide)
  have hstart : '\n' ∉ " * Copyright ".toList := by decide
  simp only [List.mem_append, List.mem_cons, not_or]
  exact ⟨⟨hstart, hyear⟩, by decide, hfeed holder hmem⟩

/-- The break behind the notice is the break behind the holder. -/
theorem ended_notice_iff : (∃ notice, IsNotice holders notice ∧ Ended notice t) ↔
    ∃ year holder named, year ≠ [] ∧ (∀ c ∈ year, isDigit c = true) ∧ holder ∈ holders ∧
      Ended holder named ∧ t = " * Copyright ".toList ++ (year ++ ' ' :: named) := by
  constructor
  · rintro ⟨_, ⟨year, holder, hne, hdigits, hmem, rfl⟩, rfl | rfl⟩
    · exact ⟨year, holder, _, hne, hdigits, hmem, .inl rfl, by
        simp only [List.append_assoc, List.cons_append]⟩
    · exact ⟨year, holder, _, hne, hdigits, hmem, .inr rfl, by
        simp only [List.append_assoc, List.cons_append]⟩
  · rintro ⟨year, holder, named, hne, hdigits, hmem, hnamed, rfl⟩
    refine ⟨_, ⟨year, holder, hne, hdigits, hmem, rfl⟩, ?_⟩
    have hended := hnamed.append (" * Copyright ".toList ++ year ++ [' '])
    simpa only [List.append_assoc, List.singleton_append] using hended

/-! ## The parts of a block -/

theorem year?_eq_some_iff {year : List Char} : year? s = some (year, rest) ↔
    year ≠ [] ∧ (∀ c ∈ year, isDigit c = true) ∧ s = year ++ ' ' :: rest := by
  constructor
  · intro h
    unfold year? at h
    by_cases hempty : (s.takeWhile isDigit).isEmpty = true
    · rw [if_pos hempty] at h
      cases h
    · rw [if_neg hempty] at h
      obtain ⟨r, hr, he⟩ := Option.map_eq_some_iff.mp h
      cases he
      rw [after?_eq_some_iff] at hr
      refine ⟨fun hnil => hempty (List.isEmpty_iff.mpr hnil),
        List.all_eq_true.mp List.all_takeWhile, ?_⟩
      have hs := List.takeWhile_append_dropWhile (p := isDigit) (l := s)
      rw [hr] at hs
      exact hs.symm
  · rintro ⟨hne, hdigits, rfl⟩
    have hspace : isDigit ' ' = false := by decide
    have htake : (year ++ ' ' :: rest).takeWhile isDigit = year := by
      rw [List.takeWhile_append_of_pos hdigits, List.takeWhile_cons_of_neg (by simp [hspace]),
        List.append_nil]
    have hdrop : (year ++ ' ' :: rest).dropWhile isDigit = ' ' :: rest := by
      rw [List.dropWhile_append_of_pos hdigits, List.dropWhile_cons_of_neg (by simp [hspace])]
    have hempty : year.isEmpty = false := by
      rw [← Bool.not_eq_true, List.isEmpty_iff]
      exact hne
    simp only [year?, htake, hdrop, hempty, Bool.false_eq_true, if_false]
    rfl

theorem afterTerms?_eq_some_iff :
    afterTerms? s = some rest ↔ ∃ t, IsTerms t ∧ s = t ++ rest := by
  have hlicense {u : List Char} :
      (afterLine? " * SPDX-License-Identifier: Apache-2.0" u).bind (after? " */".toList) = some rest ↔
        ∃ license, Ended " * SPDX-License-Identifier: Apache-2.0".toList license ∧
          u = license ++ " */".toList ++ rest := by
    simp only [Option.bind_eq_some_iff, afterLine?_eq_some_iff, after?_eq_some_iff]
    constructor
    · rintro ⟨_, ⟨t, ht, rfl⟩, rfl⟩
      exact ⟨t, ht, (List.append_assoc _ _ _).symm⟩
    · rintro ⟨t, ht, rfl⟩
      exact ⟨_, ⟨t, ht, List.append_assoc _ _ _⟩, rfl⟩
  constructor
  · intro h
    obtain ⟨license, hl, hs⟩ := hlicense.mp h
    cases hr : afterLine? " * All rights reserved." s with
    | none =>
      rw [hr, Option.getD_none] at hs
      exact ⟨_, ⟨[], license, .inl rfl, hl, rfl⟩, hs⟩
    | some u =>
      rw [hr, Option.getD_some] at hs
      obtain ⟨reserved, hreserved, rfl⟩ := afterLine?_eq_some_iff.mp hr
      refine ⟨_, ⟨reserved, license, .inr hreserved, hl, rfl⟩, ?_⟩
      rw [hs]
      simp only [List.append_assoc]
  · rintro ⟨_, ⟨reserved, license, hreserved, hl, rfl⟩, rfl⟩
    apply hlicense.mpr
    rcases hreserved with rfl | hreserved
    · -- the license line is no reservation
      have hnone : afterLine? " * All rights reserved."
          (license ++ " */".toList ++ rest) = none := by
        rcases hl with rfl | rfl
        · rfl
        · rfl
      rw [List.nil_append, hnone]
      exact ⟨license, hl, rfl⟩
    · have hsome : afterLine? " * All rights reserved."
          (reserved ++ license ++ " */".toList ++ rest) =
            some (license ++ " */".toList ++ rest) := by
        rw [afterLine?_eq_some_iff]
        exact ⟨reserved, hreserved, by simp only [List.append_assoc]⟩
      rw [hsome]
      exact ⟨license, hl, rfl⟩

theorem holder?_sound {h : List Char} (hh : holder? holders s = some (h, rest)) :
    h ∈ holders ∧ ∃ named terms, Ended h named ∧ IsTerms terms ∧ s = named ++ terms ++ rest := by
  obtain ⟨g, hg, hfound⟩ := List.exists_of_findSome?_eq_some hh
  obtain ⟨u, hu, hterms⟩ := Option.bind_eq_some_iff.mp hfound
  obtain ⟨named, hnamed, rfl⟩ := after?_break_eq_some_iff.mp hu
  obtain ⟨v, hv, he⟩ := Option.map_eq_some_iff.mp hterms
  cases he
  obtain ⟨terms, hends, rfl⟩ := afterTerms?_eq_some_iff.mp hv
  exact ⟨hg, named, terms, hnamed, hends, (List.append_assoc _ _ _).symm⟩

theorem exists_holder? {h named terms : List Char} (hh : h ∈ holders) (hnamed : Ended h named)
    (hterms : IsTerms terms) (rest : List Char) :
    ∃ found, holder? holders (named ++ terms ++ rest) = some found := by
  rw [← Option.isSome_iff_exists, holder?, List.findSome?_isSome_iff]
  refine ⟨h, hh, ?_⟩
  have hline : (after? h (named ++ terms ++ rest)).bind afterBreak? = some (terms ++ rest) :=
    after?_break_eq_some_iff.mpr ⟨named, hnamed, List.append_assoc _ _ _⟩
  have hrest : afterTerms? (terms ++ rest) = some rest :=
    afterTerms?_eq_some_iff.mpr ⟨terms, hterms, rfl⟩
  rw [hline, Option.bind_some, hrest]
  rfl

/-! ## Blocks -/

/-- What is recognised is a block. -/
theorem block?_sound (hb : block? holders s = some b) :
    IsBlock holders b.text ∧ ∃ rest, s = b.text ++ rest := by
  obtain ⟨r₂, hopen, hb⟩ := Option.bind_eq_some_iff.mp hb
  obtain ⟨r₁, hopen, htag⟩ := Option.bind_eq_some_iff.mp hopen
  obtain ⟨r₃, hnotice, hb⟩ := Option.bind_eq_some_iff.mp hb
  obtain ⟨⟨year, r₄⟩, hyear, hb⟩ := Option.bind_eq_some_iff.mp hb
  obtain ⟨⟨holder, rest⟩, hholder, hb⟩ := Option.map_eq_some_iff.mp hb
  obtain ⟨opening, hopening, rfl⟩ := afterLine?_eq_some_iff.mp hopen
  obtain ⟨tag, htagged, rfl⟩ := afterLine?_eq_some_iff.mp htag
  rw [after?_eq_some_iff] at hnotice
  obtain ⟨hne, hdigits, hr₃⟩ := year?_eq_some_iff.mp hyear
  obtain ⟨hmem, named, terms, hnamed, hterms, hr₄⟩ := holder?_sound hholder
  obtain ⟨notice, hn, hended⟩ := ended_notice_iff.mpr
    ⟨year, holder, named, hne, hdigits, hmem, hnamed, rfl⟩
  have hwhole : opening ++ (tag ++ r₂) =
      opening ++ tag ++ (" * Copyright ".toList ++ (year ++ ' ' :: named)) ++ terms ++ rest := by
    rw [hnotice, hr₃, hr₄]
    simp only [List.append_assoc, List.cons_append]
  have htext : b.text =
      opening ++ tag ++ (" * Copyright ".toList ++ (year ++ ' ' :: named)) ++ terms := by
    rw [← hb, hwhole]
    dsimp only
    rw [List.length_append, Nat.add_sub_cancel]
    exact List.take_left
  rw [htext]
  exact ⟨⟨opening, tag, notice, _, terms, hopening, htagged, hn, hended, hterms, rfl⟩, rest, hwhole⟩

/-- Every block is recognised. -/
theorem exists_block? (ht : IsBlock holders t) (rest : List Char) :
    ∃ b, block? holders (t ++ rest) = some b := by
  obtain ⟨opening, tag, notice, _, terms, hopening, htag, hn, hended, hterms, rfl⟩ := ht
  obtain ⟨year, holder, named, hne, hdigits, hmem, hnamed, rfl⟩ :=
    ended_notice_iff.mp ⟨notice, hn, hended⟩
  obtain ⟨found, hfound⟩ := exists_holder? hmem hnamed hterms rest
  have hopen : afterLine? "/**" (opening ++ tag ++ (" * Copyright ".toList ++
      (year ++ ' ' :: named)) ++ terms ++ rest) =
        some (tag ++ (" * Copyright ".toList ++ (year ++ ' ' :: (named ++ terms ++ rest)))) :=
    afterLine?_eq_some_iff.mpr ⟨opening, hopening, by
      simp only [List.append_assoc, List.cons_append]⟩
  have htagged : afterLine? " * @license" (tag ++ (" * Copyright ".toList ++
      (year ++ ' ' :: (named ++ terms ++ rest)))) =
        some (" * Copyright ".toList ++ (year ++ ' ' :: (named ++ terms ++ rest))) :=
    afterLine?_eq_some_iff.mpr ⟨tag, htag, rfl⟩
  have hnotice : after? " * Copyright ".toList (" * Copyright ".toList ++
      (year ++ ' ' :: (named ++ terms ++ rest))) = some (year ++ ' ' :: (named ++ terms ++ rest)) :=
    after?_eq_some_iff.mpr rfl
  have hyear : year? (year ++ ' ' :: (named ++ terms ++ rest)) =
      some (year, named ++ terms ++ rest) := year?_eq_some_iff.mpr ⟨hne, hdigits, rfl⟩
  rw [block?, hopen, Option.bind_some, htagged, Option.bind_some, hnotice, Option.bind_some, hyear,
    Option.bind_some]
  dsimp only
  rw [hfound]
  exact ⟨_, rfl⟩

theorem block?_eq_none_iff :
    block? holders s = none ↔ ∀ t rest, IsBlock holders t → s ≠ t ++ rest := by
  constructor
  · rintro hnone t rest ht rfl
    obtain ⟨b, hb⟩ := exists_block? ht rest
    rw [hnone] at hb
    cases hb
  · intro h
    cases hb : block? holders s with
    | none => rfl
    | some b =>
      obtain ⟨ht, rest, hs⟩ := block?_sound hb
      exact absurd hs (h b.text rest ht)

theorem IsBlock.getLast? (ht : IsBlock holders t) : t.getLast? = some '/' := by
  obtain ⟨opening, tag, notice, named, terms, -, -, -, -, ⟨reserved, license, -, -, rfl⟩, rfl⟩ := ht
  rw [List.getLast?_append_of_ne_nil _ (by simp), List.getLast?_append_of_ne_nil _ (by simp)]
  rfl

theorem IsBlock.ne_nil (ht : IsBlock holders t) : t ≠ [] := by
  rintro rfl
  cases ht.getLast?

/-- A text begins with at most one block when no holder has a line feed in its name. -/
theorem IsBlock.unique {u x y : List Char} (hfeed : ∀ h ∈ holders, '\n' ∉ h)
    (ht : IsBlock holders t) (hu : IsBlock holders u) (he : t ++ x = u ++ y) : t = u ∧ x = y := by
  obtain ⟨opening, tag, notice, named, terms, hopening, htag, hn, hended, hterms, rfl⟩ := ht
  obtain ⟨opening', tag', notice', named', terms', hopening', htag', hn', hended', hterms', rfl⟩ := hu
  simp only [List.append_assoc] at he
  obtain ⟨rfl, hbehind⟩ := hopening.unique hopening' (by decide) (by decide) he
  obtain ⟨rfl, hlines⟩ := htag.unique htag' (by decide) (by decide) hbehind
  obtain ⟨rfl, hend⟩ := hended.unique hended' (hn.no_feed hfeed) (hn'.no_feed hfeed) hlines
  have hrest : x = y := by
    have hx : afterTerms? (terms ++ x) = some x := afterTerms?_eq_some_iff.mpr ⟨terms, hterms, rfl⟩
    have hy : afterTerms? (terms ++ x) = some y :=
      afterTerms?_eq_some_iff.mpr ⟨terms', hterms', hend⟩
    exact Option.some.inj (hx.symm.trans hy)
  subst hrest
  exact ⟨by rw [List.append_cancel_right hend], rfl⟩

end ChunkBuild.Source
