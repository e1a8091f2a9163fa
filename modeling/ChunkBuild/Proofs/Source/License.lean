import ChunkBuild.Proofs.Source.Block
/-! # Removing license blocks

A text is read from left to right: at each character a block is recognised, or the character stays.
Main statement: every line keeps its place and loses only characters of blocks, which are read wherever
one stands. -/
namespace ChunkBuild.Source

open ChunkBuild.Text

inductive Scan (holders : List (List Char)) : List Char → List Piece → Prop where
  | nil : Scan holders [] []
  | kept {c t ps} : block? holders (c :: t) = none → Scan holders t ps →
      Scan holders (c :: t) (.kept c :: ps)
  | block {b t ps} : block? holders (b.text ++ t) = some b → Scan holders t ps →
      Scan holders (b.text ++ t) (.block b :: ps)

/-- The parts of a text, when a block is read wherever one stands. -/
inductive Reading (holders : List (List Char)) : List Char → List Piece → Prop where
  | nil : Reading holders [] []
  | kept {c t ps} : (∀ x rest, IsBlock holders x → c :: t ≠ x ++ rest) → Reading holders t ps →
      Reading holders (c :: t) (.kept c :: ps)
  | block {b t ps} : IsBlock holders b.text → Reading holders t ps →
      Reading holders (b.text ++ t) (.block b :: ps)

def covered (ps : List Piece) : List Bool :=
  ps.flatMap fun p => List.replicate p.text.length p.isBlock

def liesInBlock (ps : List Piece) (i : Nat) : Bool := (covered ps)[i]?.getD false

/-- Whether the character at a position is removed: it lies inside a block and is no part of a line
break. -/
def isRemoved (ps : List Piece) (t : List Char) (i : Nat) : Bool :=
  liesInBlock ps i && !isBreakAt t i

variable {holders : List (List Char)} {ps : List Piece} {t : List Char} {c : Char} {b : Block}

/-! ## Reading a text -/

theorem piecesFrom_append {k : Nat} {x : List Char} (h : x.length = k) :
    piecesFrom holders k (x ++ t) = piecesFrom holders 0 t := by
  induction x generalizing k with
  | nil =>
    subst h
    rfl
  | cons c x ih =>
    subst h
    exact ih rfl

theorem scan_piecesFrom (holders : List (List Char)) (t : List Char) :
    Scan holders t (piecesFrom holders 0 t) := by
  -- on the length: behind a block the rest of the text is read in turn
  induction hl : t.length using Nat.strong_induction_on generalizing t with
  | h l ih =>
    cases t with
    | nil => exact .nil
    | cons c t =>
      cases hb : block? holders (c :: t) with
      | none =>
        have hrest := ih t.length (by rw [← hl]; exact Nat.lt_succ_self _) t rfl
        rw [piecesFrom, hb]
        exact .kept hb hrest
      | some b =>
        obtain ⟨hblock, rest, hs⟩ := block?_sound hb
        obtain ⟨d, x, hx⟩ := List.exists_cons_of_ne_nil hblock.ne_nil
        have htail : t = x ++ rest := by
          rw [hx] at hs
          exact (List.cons.inj hs).2
        have hpieces : piecesFrom holders 0 (c :: t) = .block b :: piecesFrom holders 0 rest := by
          rw [piecesFrom, hb]
          dsimp only
          rw [htail, piecesFrom_append (by rw [hx]; rfl)]
        have hrest := ih rest.length (by
          rw [← hl, htail, List.length_cons, List.length_append]
          omega) rest rfl
        rw [hpieces, hs]
        exact .block (hs ▸ hb) hrest

theorem scan_pieces (holders : List String) (s : String) :
    Scan (holderTexts holders) s.toList (pieces holders s) :=
  scan_piecesFrom _ _

theorem Scan.reading (h : Scan holders t ps) : Reading holders t ps := by
  induction h with
  | nil => exact .nil
  | kept hnone _ ih => exact .kept (block?_eq_none_iff.mp hnone) ih
  | block hb _ ih => exact .block (block?_sound hb).1 ih

theorem Scan.text_eq (h : Scan holders t ps) : ps.flatMap Piece.text = t := by
  induction h with
  | nil => rfl
  | kept _ _ ih => rw [List.flatMap_cons, ih]; rfl
  | block _ _ ih => rw [List.flatMap_cons, ih]; rfl

/-! ## Texts without a block -/

theorem Scan.eq_kept (h : Scan holders t ps) (hno : ∀ x, x <:+: t → ¬ IsBlock holders x) :
    ps = t.map .kept := by
  induction h with
  | nil => rfl
  | @kept c t ps _ _ ih =>
    rw [List.map_cons, ih fun x hx => hno x (List.infix_cons hx)]
  | @block b t ps hb _ ih =>
    exact absurd (block?_sound hb).1 (hno b.text (List.prefix_append b.text t).isInfix)

/-- Nothing is removed where no block stands. -/
theorem normalize_of_no_block {holders : List String} {s : String}
    (hno : ∀ x, x <:+: s.toList → ¬ IsBlock (holderTexts holders) x) :
    normalize holders s = (s, 0) := by
  have hkept := (scan_pieces holders s).eq_kept hno
  refine Prod.ext ?_ ?_
  · have htext : (pieces holders s).flatMap Piece.stripped = s.toList := by
      rw [hkept, List.flatMap_map]
      exact List.flatMap_singleton' s.toList
    exact (congrArg String.ofList htext).trans String.ofList_toList
  · refine List.countP_eq_zero.mpr ?_
    rw [hkept]
    exact List.forall_mem_map.mpr fun c _ => Bool.false_ne_true

/-! ## What is left of a block -/

theorem lineBreaks_cons (c : Char) (t : List Char) : lineBreaks (c :: t) =
    if isBreakAt (c :: t) 0 then c :: lineBreaks t else lineBreaks t := by
  by_cases hboth : c = '\r' ∧ ∃ r, t = '\n' :: r
  · obtain ⟨rfl, r, rfl⟩ := hboth
    simp [lineBreaks, isBreakAt]
  · have hnext : lineBreaks (c :: t) = if c = '\n' then '\n' :: lineBreaks t else lineBreaks t := by
      rw [lineBreaks]
      exact fun r hc ht => hboth ⟨hc, r, ht⟩
    have hreturn : (c = '\r' ∧ t[0]? = some '\n') ↔ False := by
      rw [iff_false]
      rintro ⟨hc, ht⟩
      obtain ⟨r, hr⟩ := List.head?_eq_some_iff.mp (List.head?_eq_getElem? ▸ ht)
      exact hboth ⟨hc, r, hr⟩
    by_cases hc : c = '\n'
    · subst hc
      simp [hnext, isBreakAt]
    · simp [hnext, isBreakAt, hc, hreturn]

theorem lineBreaks_eq (t : List Char) : lineBreaks t = breaksIn t := by
  induction t with
  | nil => rfl
  | cons c t ih =>
    have hshift : without (fun i => !isBreakAt (c :: t) i) (1 + 0) t = breaksIn t := by
      rw [without_shift, breaksIn]
      simp only [Nat.add_comm 1, isBreakAt_cons]
    have hfirst : breaksIn (c :: t) =
        if !isBreakAt (c :: t) 0 then without (fun i => !isBreakAt (c :: t) i) (1 + 0) t
        else c :: without (fun i => !isBreakAt (c :: t) i) (1 + 0) t := rfl
    rw [lineBreaks_cons, ih, hfirst, hshift]
    cases isBreakAt (c :: t) 0
    · rfl
    · rfl

/-! ## Lines -/

/-- What is left are the characters that are not removed. -/
theorem Scan.stripped_eq (h : Scan holders t ps) :
    ps.flatMap Piece.stripped = without (isRemoved ps t) 0 t := by
  induction h with
  | nil => rfl
  | @kept c t ps _ _ ih =>
    have hfirst : isRemoved (.kept c :: ps) (c :: t) 0 = false := rfl
    have hrest : without (isRemoved (.kept c :: ps) (c :: t)) (1 + 0) t =
        without (isRemoved ps t) 0 t := by
      rw [without_shift]
      apply without_congr
      intro i _
      rw [Nat.add_comm 1]
      rfl
    rw [List.flatMap_cons, ih, without, hfirst, ← hrest]
    rfl
  | @block b t ps hb _ ih =>
    obtain ⟨hblock, -⟩ := block?_sound hb
    have hcovered : covered (.block b :: ps) = List.replicate b.text.length true ++ covered ps := rfl
    have hfirst : without (isRemoved (.block b :: ps) (b.text ++ t)) 0 b.text = breaksIn b.text := by
      apply without_congr
      intro i hi
      have hlast : b.text.getLast? ≠ some '\r' := by
        rw [hblock.getLast?]
        decide
      have hbreak := isBreakAt_append_left (r := t) hi hlast
      rw [Nat.zero_add, isRemoved, liesInBlock, hcovered, hbreak,
        List.getElem?_append_left (by simpa using hi)]
      simp [hi]
    have hrest : without (isRemoved (.block b :: ps) (b.text ++ t)) (b.text.length + 0) t =
        without (isRemoved ps t) 0 t := by
      rw [without_shift]
      apply without_congr
      intro i _
      rw [isRemoved, isRemoved, isBreakAt_append, liesInBlock, liesInBlock, hcovered, Nat.zero_add,
        List.getElem?_append_right (by simp)]
      simp
    rw [List.flatMap_cons, ih, without_append, hfirst, ← lineBreaks_eq, Nat.zero_add]
    exact congrArg _ hrest.symm

theorem normalize_fst (holders : List String) (s : String) :
    (normalize holders s).1 =
      String.ofList (without (isRemoved (pieces holders s) s.toList) 0 s.toList) :=
  congrArg String.ofList (scan_pieces holders s).stripped_eq

theorem isRemoved_of_feed {i : Nat} (h : t[i]? = some '\n') : isRemoved ps t i = false := by
  simp [isRemoved, isBreakAt, h]

theorem lineCount_eq (s : String) : lineCount s = (split "\n" s).length := by
  rw [split, List.length_map]
  exact (length_splitOn_letter '\n' s.toList).symm

/-- The parts make up the text, and a block is read wherever one stands. Line by line, what is left are the
characters that lie outside of the blocks or belong to line breaks, so a line that meets no block stays as
it is. -/
theorem lines_normalize (holders : List String) (s : String) :
    (pieces holders s).flatMap Piece.text = s.toList ∧
    Reading (holderTexts holders) s.toList (pieces holders s) ∧
    (split "\n" (normalize holders s).1).length = (split "\n" s).length ∧
    lineCount (normalize holders s).1 = lineCount s ∧
    ∀ (k : Nat) (line : String), (split "\n" s)[k]? = some line →
      (split "\n" (normalize holders s).1)[k]? = some (String.ofList
        (without (isRemoved (pieces holders s) s.toList) (lineStart (split "\n" s) k)
          line.toList)) ∧
      ((∀ i, i < line.toList.length →
          liesInBlock (pieces holders s) (lineStart (split "\n" s) k + i) = false) →
        (split "\n" (normalize holders s).1)[k]? = some line) := by
  have hfeed : ∀ i, s.toList[i]? = some '\n' → isRemoved (pieces holders s) s.toList i = false :=
    fun _ => isRemoved_of_feed
  have hlength := length_split_without hfeed
  rw [← normalize_fst] at hlength
  have hscan := scan_pieces holders s
  refine ⟨hscan.text_eq, hscan.reading, hlength, ?_, ?_⟩
  · rw [lineCount_eq, lineCount_eq, hlength]
  · intro k line hline
    have hleft := line_without hfeed k
    rw [← normalize_fst, hline, Option.map_some] at hleft
    refine ⟨hleft, fun houtside => ?_⟩
    have huntaken : without (isRemoved (pieces holders s) s.toList) (lineStart (split "\n" s) k)
        line.toList = line.toList := by
      apply without_of_untaken
      intro i hi
      rw [isRemoved, houtside i hi, Bool.false_and]
    rw [hleft, huntaken, String.ofList_toList]

end ChunkBuild.Source
