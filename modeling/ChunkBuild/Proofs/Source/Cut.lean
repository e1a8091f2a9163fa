import ChunkBuild.Proofs.Source.License
/-! # Cutting a text at its blocks

A text is cut from left to right: a gap in which no block begins, a block, and so on to a last gap.
If no text begins with two blocks there is one such cut only. Main statement: the license blocks that
are removed are those of the cut, so the holders count as a set. -/
namespace ChunkBuild.Source

open ChunkBuild.Text

/-- No block begins inside a gap, `behind` being what follows it. -/
def IsFree (P : List Char → Prop) (gap behind : List Char) : Prop :=
  ∀ before after, gap = before ++ after → after ≠ [] → ∀ t rest, P t → after ++ behind ≠ t ++ rest

/-- A text as a first gap and blocks, each with the gap behind it. -/
inductive Cut (P : List Char → Prop) :
    List Char → List Char → List (List Char × List Char) → Prop where
  | last {gap} : IsFree P gap [] → Cut P gap gap []
  | more {gap block behind next rest} : IsFree P gap (block ++ behind) → P block →
      Cut P behind next rest → Cut P (gap ++ (block ++ behind)) gap ((block, next) :: rest)

variable {P : List Char → Prop} {t x gap other behind : List Char} {c : Char}
  {first next : List Char} {rest later : List (List Char × List Char)}

/-! ## Building a cut -/

theorem IsFree.nil (behind : List Char) : IsFree P [] behind := by
  intro before after h hne
  exact absurd (List.append_eq_nil_iff.mp h.symm).2 hne

theorem IsFree.cons (h : IsFree P gap behind)
    (hc : ∀ t rest, P t → c :: (gap ++ behind) ≠ t ++ rest) : IsFree P (c :: gap) behind := by
  intro before after hsplit hne
  cases before with
  | nil =>
    cases hsplit
    exact hc
  | cons d before => exact h before after (List.cons.inj hsplit).2 hne

theorem Cut.cons (h : Cut P t first rest) (hc : ∀ u r, P u → c :: t ≠ u ++ r) :
    Cut P (c :: t) (c :: first) rest := by
  cases h with
  | last hfree =>
    refine .last (hfree.cons ?_)
    rw [List.append_nil]
    exact hc
  | more hfree hblock hnext => exact .more (hfree.cons hc) hblock hnext

theorem Cut.block (h : Cut P t first rest) (hx : P x) : Cut P (x ++ t) [] ((x, first) :: rest) :=
  .more (.nil _) hx h

theorem Cut.text_eq (h : Cut P t first rest) : t = first ++ rest.flatMap fun p => p.1 ++ p.2 := by
  induction h with
  | last => exact (List.append_nil _).symm
  | more _ _ _ ih => rw [List.flatMap_cons, ih, List.append_assoc]

/-! ## Only one cut -/

def Begins (P : List Char → Prop) (s : List Char) : Prop := s = [] ∨ ∃ t rest, P t ∧ s = t ++ rest

/-- A gap ends where a block begins. -/
theorem IsFree.eq_nil_of_begins (h : IsFree P (gap ++ x) behind) (hb : Begins P (x ++ behind)) :
    x = [] := by
  by_contra hne
  rcases hb with hnil | ⟨t, rest, ht, he⟩
  · exact hne (List.append_eq_nil_iff.mp hnil).1
  · exact h gap x rfl hne t rest ht he

theorem IsFree.unique {after : List Char} (h : IsFree P gap behind) (ho : IsFree P other after)
    (hb : Begins P behind) (ha : Begins P after) (he : gap ++ behind = other ++ after) :
    gap = other ∧ behind = after := by
  rcases List.append_eq_append_iff.mp he with ⟨x, rfl, rfl⟩ | ⟨x, rfl, rfl⟩
  · obtain rfl := ho.eq_nil_of_begins hb
    exact ⟨(List.append_nil _).symm, rfl⟩
  · obtain rfl := h.eq_nil_of_begins ha
    exact ⟨List.append_nil _, rfl⟩

theorem Cut.unique (hne : ∀ t, P t → t ≠ [])
    (hone : ∀ {t u x y}, P t → P u → t ++ x = u ++ y → t = u ∧ x = y)
    (h : Cut P t first rest) (ho : Cut P t next later) : first = next ∧ rest = later := by
  induction h generalizing next later with
  | @last gap hfree =>
    generalize ht : gap = t at ho
    cases ho with
    | last =>
      subst ht
      exact ⟨rfl, rfl⟩
    | @more _ block behind _ _ hother hblock =>
      have he : gap ++ [] = next ++ (block ++ behind) := (List.append_nil gap).trans ht
      obtain ⟨-, hnil⟩ := hfree.unique hother (.inl rfl) (.inr ⟨block, behind, hblock, rfl⟩) he
      exact absurd (List.append_eq_nil_iff.mp hnil.symm).1 (hne block hblock)
  | @more gap block behind _ _ hfree hblock _ ih =>
    generalize ht : gap ++ (block ++ behind) = t at ho
    have hbegins : Begins P (block ++ behind) := .inr ⟨block, behind, hblock, rfl⟩
    cases ho with
    | last hother =>
      have he : gap ++ (block ++ behind) = next ++ [] := ht.trans (List.append_nil next).symm
      obtain ⟨-, hnil⟩ := hfree.unique hother hbegins (.inl rfl) he
      exact absurd (List.append_eq_nil_iff.mp hnil).1 (hne block hblock)
    | @more _ block' behind' next' rest' hother hblock' hnext =>
      obtain ⟨rfl, hbehind⟩ := hfree.unique hother hbegins (.inr ⟨block', behind', hblock', rfl⟩) ht
      obtain ⟨rfl, rfl⟩ := hone hblock hblock' hbehind
      obtain ⟨rfl, rfl⟩ := ih hnext
      exact ⟨rfl, rfl⟩

/-! ## Removing license blocks -/

/-- What the parts of a text are left with is what its cut is left with. -/
theorem Scan.exists_cut {holders : List (List Char)} {ps : List Piece} (h : Scan holders t ps) :
    ∃ first rest, Cut (IsBlock holders) t first rest ∧
      ps.flatMap Piece.stripped = first ++ rest.flatMap (fun p => breaksIn p.1 ++ p.2) ∧
      ps.countP Piece.isBlock = rest.length := by
  induction h with
  | nil => exact ⟨[], [], .last (.nil []), rfl, rfl⟩
  | @kept c t ps hnone _ ih =>
    obtain ⟨first, rest, hcut, hleft, hcount⟩ := ih
    refine ⟨c :: first, rest, hcut.cons (block?_eq_none_iff.mp hnone), ?_, ?_⟩
    · rw [List.flatMap_cons, hleft]
      rfl
    · have hno : ¬ (Piece.kept c).isBlock = true := Bool.false_ne_true
      rw [List.countP_cons_of_neg hno, hcount]
  | @block b t ps hb _ ih =>
    obtain ⟨first, rest, hcut, hleft, hcount⟩ := ih
    refine ⟨[], (b.text, first) :: rest, hcut.block (block?_sound hb).1, ?_, ?_⟩
    · rw [List.flatMap_cons, hleft, List.flatMap_cons, List.append_assoc, ← lineBreaks_eq]
      rfl
    · rw [List.countP_cons_of_pos rfl, hcount]
      rfl

theorem isBlock_congr {holders others : List (List Char)} (h : ∀ x, x ∈ others ↔ x ∈ holders) :
    IsBlock others = IsBlock holders := by
  funext t
  simp only [IsBlock, IsNotice, h]

theorem holderTexts_of_ne_nil {holders : List String} (h : holders ≠ []) :
    holderTexts holders = holders.map String.toList := by
  rw [holderTexts, if_neg (by simpa using h)]

theorem exists_cut_normalize {holders : List String} (hne : holders ≠ []) (s : String) :
    ∃ first rest, Cut (IsBlock (holders.map String.toList)) s.toList first rest ∧
      normalize holders s =
        (String.ofList (first ++ rest.flatMap fun p => breaksIn p.1 ++ p.2), rest.length) := by
  have hscan := scan_pieces holders s
  rw [holderTexts_of_ne_nil hne] at hscan
  obtain ⟨first, rest, hcut, hstripped, hcount⟩ := hscan.exists_cut
  exact ⟨first, rest, hcut, Prod.ext (congrArg String.ofList hstripped) hcount⟩

/-- A text is left with the gaps and line breaks of its only cut at license blocks, as many as are
counted. Order and repetition of the holders do not count. -/
theorem normalize_eq_iff {holders : List String} (hne : holders ≠ [])
    (hfeed : ∀ h ∈ holders, '\n' ∉ h.toList) :
    (∀ (s u : String) (n : Nat), normalize holders s = (u, n) ↔
      ∃ first rest, Cut (IsBlock (holders.map String.toList)) s.toList first rest ∧
        s.toList = first ++ rest.flatMap (fun p => p.1 ++ p.2) ∧
        u = String.ofList (first ++ rest.flatMap fun p => breaksIn p.1 ++ p.2) ∧
        n = rest.length) ∧
    ∀ others : List String, (∀ h, h ∈ others ↔ h ∈ holders) →
      ∀ s, normalize others s = normalize holders s := by
  have hall : ∀ h ∈ holders.map String.toList, '\n' ∉ h := List.forall_mem_map.mpr hfeed
  have hunique {t first first' rest rest'}
      (h : Cut (IsBlock (holders.map String.toList)) t first rest)
      (h' : Cut (IsBlock (holders.map String.toList)) t first' rest') :
      first = first' ∧ rest = rest' :=
    h.unique (fun _ => IsBlock.ne_nil) (IsBlock.unique hall) h'
  refine ⟨fun s u n => ⟨fun h => ?_, ?_⟩, fun others hsame s => ?_⟩
  · obtain ⟨first, rest, hcut, hresult⟩ := exists_cut_normalize hne s
    cases hresult.symm.trans h
    exact ⟨first, rest, hcut, hcut.text_eq, rfl, rfl⟩
  · rintro ⟨first, rest, hcut, -, rfl, rfl⟩
    obtain ⟨first', rest', hcut', hresult⟩ := exists_cut_normalize hne s
    obtain ⟨rfl, rfl⟩ := hunique hcut hcut'
    exact hresult
  · have hsome : others ≠ [] := by
      obtain ⟨h, hh⟩ := List.exists_mem_of_ne_nil holders hne
      exact List.ne_nil_of_mem ((hsame h).mpr hh)
    have htexts : ∀ x, x ∈ others.map String.toList ↔ x ∈ holders.map String.toList := by
      intro x
      simp only [List.mem_map, hsame]
    obtain ⟨first, rest, hcut, hresult⟩ := exists_cut_normalize hne s
    obtain ⟨first', rest', hcut', hresult'⟩ := exists_cut_normalize hsome s
    rw [isBlock_congr htexts] at hcut'
    obtain ⟨rfl, rfl⟩ := hunique hcut hcut'
    rw [hresult, hresult']

def companyText : String :=
  "a\n/**\r\n * @license\n * Copyright 2024 Ann & Co\n * SPDX-License-Identifier: Apache-2.0\n */b"

/-- The longer holder is found behind the shorter one, and in any order. -/
theorem company_block_removed :
    (["Ann", "Ann & Co"] ≠ [] ∧ ∀ h ∈ ["Ann", "Ann & Co"], '\n' ∉ h.toList) ∧
    (∃ first rest,
      Cut (IsBlock (["Ann", "Ann & Co"].map String.toList)) companyText.toList first rest ∧
      companyText.toList = first ++ rest.flatMap (fun p => p.1 ++ p.2) ∧
      "a\n\r\n\n\n\nb" = String.ofList (first ++ rest.flatMap fun p => breaksIn p.1 ++ p.2) ∧
      1 = rest.length) ∧
    normalize ["Ann & Co", "Ann", "Ann"] companyText = ("a\n\r\n\n\n\nb", 1) := by
  have hne : ["Ann", "Ann & Co"] ≠ [] := List.cons_ne_nil _ _
  have hfeed : ∀ h ∈ ["Ann", "Ann & Co"], '\n' ∉ h.toList := by decide
  have hresult : normalize ["Ann", "Ann & Co"] companyText = ("a\n\r\n\n\n\nb", 1) := by
    decide +kernel
  obtain ⟨hiff, hsame⟩ := normalize_eq_iff hne hfeed
  refine ⟨⟨hne, hfeed⟩, (hiff _ _ _).mp hresult, ?_⟩
  rw [hsame ["Ann & Co", "Ann", "Ann"] (by simp [or_comm]) companyText]
  exact hresult

end ChunkBuild.Source
