import ChunkBuild.Proofs.Source.License
import ChunkBuild.Proofs.Text.Occurrence
/-! # Nothing is left to remove

A removed block leaves several line breaks side by side. In a block every line feed is followed by a
space, so a block in what is left cannot span them: it lies in a gap, where the search from the left
would have found it. Main statement: what is left of a text holds no block, and removing blocks again
changes nothing. -/
namespace ChunkBuild.Source

open ChunkBuild.Text

def Spaced (s : List Char) : Prop := ∀ a b, s = a ++ '\n' :: b → b.head? = some ' '

variable {holders : List (List Char)} {ps : List Piece} {line s t x y : List Char} {c : Char}

/-! ## Blocks have no empty line -/

theorem Spaced.of_no_feed (h : '\n' ∉ s) : Spaced s := by
  rintro a b rfl
  exact absurd (List.mem_append_right a List.mem_cons_self) h

theorem Spaced.tail (h : Spaced (c :: s)) : Spaced s :=
  fun a b he => h (c :: a) b (congrArg (c :: ·) he)

theorem Spaced.ended (hy : Spaced y) (hhead : y.head? = some ' ') (h : Ended line t)
    (hline : '\n' ∉ line) : Spaced (t ++ y) := by
  obtain ⟨u, hu, rfl⟩ := h.eq_concat hline
  intro a b he
  rw [List.append_assoc, List.singleton_append] at he
  rcases List.append_eq_append_iff.mp he with ⟨v, rfl, hv⟩ | ⟨v, rfl, hv⟩
  · cases v with
    | nil =>
      cases hv
      exact hhead
    | cons d v => exact hy v b (List.cons.inj hv).2
  · cases v with
    | nil =>
      cases hv
      exact hhead
    | cons d v =>
      obtain rfl := (List.cons.inj hv).1
      exact absurd (List.mem_append_right a List.mem_cons_self) hu

theorem Ended.head? (h : Ended line t) (hline : line.head? = some c) (y : List Char) :
    (t ++ y).head? = some c := by
  rcases h with rfl | rfl
  all_goals rw [List.append_assoc, List.head?_append, hline, Option.some_or]

theorem IsTerms.spaced (h : IsTerms t) : Spaced t ∧ t.head? = some ' ' := by
  obtain ⟨reserved, license, hreserved, hlicense, rfl⟩ := h
  have closing : Spaced " */".toList := Spaced.of_no_feed (by decide)
  have hend : Spaced (license ++ " */".toList) :=
    closing.ended rfl hlicense (by decide)
  have hhead : (license ++ " */".toList).head? = some ' ' := hlicense.head? rfl _
  rw [List.append_assoc]
  rcases hreserved with rfl | hreserved
  · exact ⟨hend, hhead⟩
  · exact ⟨hend.ended hhead hreserved (by decide), hreserved.head? rfl _⟩

theorem IsBlock.spaced (hfeed : ∀ h ∈ holders, '\n' ∉ h) (h : IsBlock holders t) : Spaced t := by
  obtain ⟨opening, tag, notice, named, terms, hopening, htag, hn, hnamed, hterms, rfl⟩ := h
  have hnotice : notice.head? = some ' ' := by
    obtain ⟨year, holder, -, -, -, rfl⟩ := hn
    rfl
  obtain ⟨hspaced, hhead⟩ := hterms.spaced
  have hlines := hspaced.ended hhead hnamed (hn.no_feed hfeed)
  have htagged := hlines.ended (hnamed.head? hnotice _) htag (by decide)
  have hopened := htagged.ended (htag.head? rfl _) hopening (by decide)
  simpa only [List.append_assoc] using hopened

theorem IsBlock.eq_cons (h : IsBlock holders t) : ∃ u, t = '/' :: u := by
  obtain ⟨opening, tag, notice, named, terms, hopening, -, -, -, -, rfl⟩ := h
  rcases hopening with rfl | rfl
  all_goals exact ⟨_, rfl⟩

/-! ## What a block leaves -/

theorem mem_lineBreaks (h : c ∈ lineBreaks t) : c = '\r' ∨ c = '\n' := by
  fun_induction lineBreaks t with
  | case1 => cases h
  | case2 r ih =>
    rcases List.mem_cons.mp h with h | h
    · exact .inl h
    · rcases List.mem_cons.mp h with h | h
      · exact .inr h
      · exact ih h
  | case3 r _ ih =>
    rcases List.mem_cons.mp h with h | h
    · exact .inr h
    · exact ih h
  | case4 c r _ _ ih => exact ih h

/-- The break of the first line is not the last one. -/
theorem IsBlock.lineBreaks_eq (h : IsBlock holders t) :
    ∃ a b, lineBreaks t = a ++ '\n' :: b ∧ b ≠ [] := by
  obtain ⟨opening, tag, notice, named, terms, hopening, htag, -, -, -, rfl⟩ := h
  have hrest : lineBreaks (tag ++ (named ++ terms)) ≠ [] := by
    rcases htag with rfl | rfl
    all_goals exact List.cons_ne_nil _ _
  rw [List.append_assoc, List.append_assoc]
  rcases hopening with rfl | rfl
  · exact ⟨[], _, rfl, hrest⟩
  · exact ⟨['\r'], _, rfl, hrest⟩

/-! ## What is left of a text -/

/-- A text without empty lines that ends a comment ends before the breaks that a block leaves. -/
theorem Scan.prefix_of_spaced (h : Scan holders t ps) (hx : x <+: ps.flatMap Piece.stripped)
    (hend : x = [] ∨ x.getLast? = some '/') (hs : Spaced x) : x <+: t := by
  induction h generalizing x with
  | nil => exact hx
  | @kept c t ps _ _ ih =>
    cases x with
    | nil => exact List.nil_prefix
    | cons d x =>
      have hcons : d :: x <+: c :: ps.flatMap Piece.stripped := hx
      obtain ⟨rfl, hrest⟩ := List.cons_prefix_cons.mp hcons
      refine List.cons_prefix_cons.mpr ⟨rfl, ih hrest ?_ hs.tail⟩
      cases x with
      | nil => exact .inl rfl
      | cons e x => exact .inr (hend.resolve_left (List.cons_ne_nil d _))
  | @block b t ps hb _ _ =>
    rcases hend with rfl | hend
    · exact List.nil_prefix
    · obtain ⟨before, after, hbreaks, hne⟩ := (block?_sound hb).1.lineBreaks_eq
      rw [List.flatMap_cons] at hx
      rcases List.prefix_or_prefix_of_prefix hx (List.prefix_append _ _) with hin | ⟨y, rfl⟩
      · have hslash := mem_lineBreaks (hin.subset (List.mem_of_getLast? hend))
        exact absurd hslash (by decide)
      · change Spaced (lineBreaks b.text ++ y) at hs
        obtain ⟨d, after, rfl⟩ := List.exists_cons_of_ne_nil hne
        have hspace := hs before (d :: after ++ y) (by
          rw [hbreaks, List.append_assoc, List.cons_append])
        obtain rfl := Option.some.inj hspace
        have hbreak := mem_lineBreaks (t := b.text) (c := ' ') (by rw [hbreaks]; simp)
        exact absurd hbreak (by decide)

theorem Scan.no_block_left (hfeed : ∀ h ∈ holders, '\n' ∉ h) (h : Scan holders t ps)
    (hx : x <:+: ps.flatMap Piece.stripped) : ¬ IsBlock holders x := by
  intro hblock
  induction h with
  | nil => exact hblock.ne_nil (List.infix_nil.mp hx)
  | @kept c t ps hnone hscan ih =>
    rcases List.infix_cons_iff.mp hx with hx | hx
    · -- it would have been found at its place in the text
      obtain ⟨rest, hrest⟩ := (Scan.kept hnone hscan).prefix_of_spaced hx (.inr hblock.getLast?)
        (hblock.spaced hfeed)
      exact block?_eq_none_iff.mp hnone x rest hblock hrest.symm
    · exact ih hx
  | @block b t ps _ _ ih =>
    obtain ⟨u, rfl⟩ := hblock.eq_cons
    have hslash : '/' ∉ lineBreaks b.text := fun h => absurd (mem_lineBreaks h) (by decide)
    rw [List.flatMap_cons] at hx
    exact ih ((infix_append_iff_of_head hslash).mp hx)

/-- What is left of a text holds no license block, so nothing more is removed from it. -/
theorem normalize_complete {holders : List String} (hfeed : ∀ h ∈ holders, '\n' ∉ h.toList)
    (s : String) :
    (∀ x, x <:+: (normalize holders s).1.toList → ¬ IsBlock (holderTexts holders) x) ∧
    normalize holders (normalize holders s).1 = ((normalize holders s).1, 0) := by
  have htexts : ∀ h ∈ holderTexts holders, '\n' ∉ h := by
    rw [holderTexts]
    split_ifs
    · exact List.forall_mem_singleton.mpr List.not_mem_nil
    · exact List.forall_mem_map.mpr hfeed
  have hleft : ∀ x, x <:+: (normalize holders s).1.toList → ¬ IsBlock (holderTexts holders) x := by
    intro x hx
    have hstripped : (normalize holders s).1.toList = (pieces holders s).flatMap Piece.stripped :=
      String.toList_ofList
    rw [hstripped] at hx
    exact (scan_pieces holders s).no_block_left htexts hx
  exact ⟨hleft, normalize_of_no_block hleft⟩

def nestedText : String :=
  "/**\n * @license\n/**\n * @license\n * Copyright 2020 Google LLC\n" ++
    " * SPDX-License-Identifier: Apache-2.0\n */ * Copyright 2020 Google LLC\n" ++
    " * SPDX-License-Identifier: Apache-2.0\n */"

theorem nested_block_removed_once :
    (∀ h ∈ defaultHolders, '\n' ∉ h.toList) ∧
    ∃ rest, normalize defaultHolders nestedText = (rest, 1) ∧
      rest = "/**\n * @license\n\n\n\n\n * Copyright 2020 Google LLC\n" ++
        " * SPDX-License-Identifier: Apache-2.0\n */" ∧
      normalize defaultHolders rest = (rest, 0) := by
  have hfeed : ∀ h ∈ defaultHolders, '\n' ∉ h.toList := by decide
  have hfirst : normalize defaultHolders nestedText = ("/**\n * @license\n\n\n\n\n" ++
      " * Copyright 2020 Google LLC\n * SPDX-License-Identifier: Apache-2.0\n */", 1) := by
    decide +kernel
  have hagain := (normalize_complete hfeed nestedText).2
  rw [hfirst] at hagain
  exact ⟨hfeed, _, hfirst, rfl, hagain⟩

end ChunkBuild.Source
