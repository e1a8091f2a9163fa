import ChunkBuild.Text.Half
import Mathlib.Data.List.Chain
/-! # Whole texts

A text is whole when it writes code points, halves of characters among them, but never the two halves
of one character side by side: these are read as the one character. Every text of characters is whole
in its written form, and so is a part of a whole text that begins between two code points. Joining the
halves that stand side by side makes any text whole. -/
namespace ChunkBuild.Text

structure AreApart (ns : List Nat) : Prop where
  bounded : ∀ n ∈ ns, n < 0x110000
  unjoined : ns.IsChain fun a b => joined? a b = none

def IsWhole (s : String) : Prop := ∃ ns, AreApart ns ∧ s.toList = ofPoints ns

variable {s : String} {ns : List Nat} {a b n : Nat}

/-- What holds of all characters of a given text is found out one by one. -/
theorem forall_mem_of_all {P : Char → Prop} [DecidablePred P] {cs : List Char}
    (h : cs.all (fun c => decide (P c)) = true) : ∀ c ∈ cs, P c := by
  intro c hc
  exact of_decide_eq_true (List.all_eq_true.mp h c hc)

theorem AreApart.tail (h : AreApart (n :: ns)) : AreApart ns :=
  ⟨fun m hm => h.bounded m (List.mem_cons_of_mem _ hm), h.unjoined.tail⟩

theorem IsWhole.apart (h : IsWhole s) : AreApart (points s.toList) := by
  obtain ⟨ns, ha, hs⟩ := h
  rwa [hs, points_ofPoints ha.bounded]

theorem IsWhole.ofPoints_points (h : IsWhole s) : ofPoints (points s.toList) = s.toList := by
  obtain ⟨ns, ha, hs⟩ := h
  rw [hs, points_ofPoints ha.bounded]

/-! ## Texts of characters -/

/-- Only a half can be put together with what follows. -/
theorem joined?_eq_none_of_not_half (h : isHalf n = false) (m : Nat) : joined? n m = none := by
  simp only [isHalf, Bool.and_eq_false_iff, decide_eq_false_iff_not] at h
  rw [joined?, if_neg]
  simp only [Bool.and_eq_true, decide_eq_true_eq]
  omega

theorem areApart_of_no_half (hb : ∀ n ∈ ns, n < 0x110000) (hh : ∀ n ∈ ns, isHalf n = false) :
    AreApart ns := by
  refine ⟨hb, ?_⟩
  induction ns with
  | nil => exact .nil
  | cons n ns ih =>
    cases ns with
    | nil => exact .singleton n
    | cons m ns =>
      refine .cons_cons (joined?_eq_none_of_not_half (hh n (by simp)) m) (ih ?_ ?_)
      · exact fun k hk => hb k (List.mem_cons_of_mem _ hk)
      · exact fun k hk => hh k (List.mem_cons_of_mem _ hk)

theorem toNat_bounds (c : Char) : c.toNat < 0x110000 ∧ isHalf c.toNat = false := by
  have h : c.toNat.isValidChar := c.valid
  simp only [Nat.isValidChar] at h
  refine ⟨by omega, ?_⟩
  simp only [isHalf, Bool.and_eq_false_iff, decide_eq_false_iff_not]
  omega

theorem areApart_toNat (cs : List Char) : AreApart (cs.map Char.toNat) := by
  refine areApart_of_no_half ?_ ?_
  · intro n hn
    obtain ⟨c, -, rfl⟩ := List.mem_map.mp hn
    exact (toNat_bounds c).1
  · intro n hn
    obtain ⟨c, -, rfl⟩ := List.mem_map.mp hn
    exact (toNat_bounds c).2

theorem written_isWhole (s : String) : IsWhole (written s) :=
  ⟨s.toList.map Char.toNat, areApart_toNat s.toList, String.toList_ofList⟩

/-- A character before the first mark is written as it is. -/
theorem charsOf_toNat {c : Char} (h : c.toNat < firstMark) : charsOf c.toNat = [c] := by
  have hx : c.toNat < firstIndex := Nat.lt_trans h (by decide)
  rw [charsOf, if_neg (by simp [(toNat_bounds c).2]), if_neg (by omega), if_neg (by omega),
    Char.ofNat_toNat]

theorem ofPoints_toNat {cs : List Char} (h : ∀ c ∈ cs, c.toNat < firstMark) :
    ofPoints (cs.map Char.toNat) = cs := by
  induction cs with
  | nil => rfl
  | cons c cs ih =>
    rw [List.map_cons, ofPoints, List.flatMap_cons, charsOf_toNat (h c (by simp))]
    exact congrArg (c :: ·) (ih fun d hd => h d (by simp [hd]))

theorem isWhole_of_unmarked (h : ∀ c ∈ s.toList, c.toNat < firstMark) :
    IsWhole s ∧ hasHalf s = false := by
  have hp := ofPoints_toNat h
  refine ⟨⟨_, areApart_toNat s.toList, hp.symm⟩, ?_⟩
  rw [hasHalf, ← hp, points_ofPoints (areApart_toNat s.toList).bounded, List.any_eq_false]
  intro n hn
  obtain ⟨c, -, rfl⟩ := List.mem_map.mp hn
  simp [(toNat_bounds c).2]

/-! ## Parts of whole texts -/

/-- A code point is written by one character or by a pair of a mark and an index. -/
theorem charsOf_shape (h : n < 0x110000) :
    (∃ c, charsOf n = [c] ∧ isMark c = false ∧ isIndex c = false) ∨
      ∃ m i, charsOf n = [m, i] ∧ isMark m = true ∧ isIndex i = true := by
  have hpair {k i : Nat} (hk : k < 3) (hi : i < 0x800) :
      ∃ m x, pairOf k i = [m, x] ∧ isMark m = true ∧ isIndex x = true := by
    refine ⟨_, _, rfl, ?_, by simp [isIndex, toNat_index hi]⟩
    simp only [isMark, toNat_mark hk, Bool.and_eq_true, decide_eq_true_eq]
    unfold firstMark firstIndex
    omega
  unfold charsOf
  split
  next hh =>
    simp only [isHalf, Bool.and_eq_true, decide_eq_true_eq] at hh
    exact .inr (hpair (by omega) (by omega))
  next hh =>
    split
    next => exact .inr (hpair (by omega) (by unfold firstIndex; omega))
    next hx =>
      split
      next hm =>
        exact .inr (hpair (by omega) (by unfold firstIndex at hx; unfold firstMark; omega))
      next hm =>
        have hvalid : n.isValidChar := by
          simp only [isHalf, Bool.and_eq_true, decide_eq_true_eq] at hh
          unfold Nat.isValidChar
          omega
        refine .inl ⟨_, rfl, ?_, ?_⟩
        · simp [isMark, toNat_ofNat hvalid, hm]
        · simp [isIndex, toNat_ofNat hvalid, hx]

/-- A character that is no index begins a code point, so what starts there writes the last code
points of the whole. -/
theorem exists_suffix_points {before : List Char} {c : Char} {after : List Char}
    (hb : ∀ n ∈ ns, n < 0x110000) (hc : isIndex c = false) (h : ofPoints ns = before ++ c :: after) :
    ∃ ms, ms <:+ ns ∧ ofPoints ms = c :: after := by
  induction ns generalizing before with
  | nil => simp [ofPoints] at h
  | cons n ns ih =>
    have hn := charsOf_shape (hb n (by simp))
    have hr := fun k hk => hb k (List.mem_cons_of_mem n hk)
    have hcons : ofPoints (n :: ns) = charsOf n ++ ofPoints ns := List.flatMap_cons
    cases before with
    | nil => exact ⟨n :: ns, List.suffix_rfl, h⟩
    | cons b before =>
      rcases hn with ⟨x, hx, -⟩ | ⟨x, y, hx, -, hy⟩
      · rw [hcons, hx] at h
        obtain ⟨-, h⟩ := List.cons.inj h
        obtain ⟨ms, hms, he⟩ := ih hr h
        exact ⟨ms, hms.trans (List.suffix_cons n ns), he⟩
      · rw [hcons, hx] at h
        obtain ⟨-, h⟩ := List.cons.inj h
        cases before with
        | nil =>
          obtain ⟨rfl, -⟩ := List.cons.inj h
          rw [hc] at hy
          cases hy
        | cons d before =>
          obtain ⟨-, h⟩ := List.cons.inj h
          obtain ⟨ms, hms, he⟩ := ih hr h
          exact ⟨ms, hms.trans (List.suffix_cons n ns), he⟩

/-- A whole text stays whole when all before a character is replaced by one that is no half. -/
theorem isWhole_of_append {before after : List Char} {c d : Char} (hc : isIndex c = false)
    (hd : d.toNat < firstMark) (h : IsWhole (String.ofList (before ++ c :: after))) :
    IsWhole (String.ofList (d :: c :: after)) := by
  obtain ⟨ns, ha, hs⟩ := h
  rw [String.toList_ofList] at hs
  obtain ⟨ms, hms, he⟩ := exists_suffix_points ha.bounded hc hs.symm
  refine ⟨d.toNat :: ms, ⟨?_, ?_⟩, ?_⟩
  · intro n hn
    rcases List.mem_cons.mp hn with rfl | hn
    · exact (toNat_bounds d).1
    · exact ha.bounded n (hms.subset hn)
  · cases ms with
    | nil => exact .singleton _
    | cons m ms =>
      exact .cons_cons (joined?_eq_none_of_not_half (toNat_bounds d).2 m)
        ( List.IsChain.infix ha.unjoined hms.isInfix)
  · rw [String.toList_ofList, ofPoints, List.flatMap_cons, charsOf_toNat hd, ← he]
    rfl

/-! ## Halves side by side -/

/-- Code points in which the two halves of a character side by side are that character. -/
def joinHalves : List Nat → List Nat
  | [] => []
  | [n] => [n]
  | a :: b :: r =>
    match joined? a b with
    | some n => n :: joinHalves r
    | none => a :: joinHalves (b :: r)

def rejoined (s : String) : String := String.ofList (ofPoints (joinHalves (points s.toList)))

theorem joined?_eq_some_iff : joined? a b = some n ↔
    (0xD800 ≤ a ∧ a < 0xDC00) ∧ (0xDC00 ≤ b ∧ b < 0xE000) ∧
      n = 0x10000 + (a - 0xD800) * 0x400 + (b - 0xDC00) := by
  unfold joined?
  simp only [Bool.and_eq_true, decide_eq_true_eq]
  split_ifs with h
  · rw [Option.some.injEq]
    omega
  · refine iff_of_false (fun h => nomatch h) ?_
    omega

/-- A joined character is no half of another one. -/
theorem joined?_of_joined (h : joined? a b = some n) (m : Nat) :
    n < 0x110000 ∧ joined? n m = none ∧ joined? m n = none := by
  obtain ⟨ha, hb, hn⟩ := joined?_eq_some_iff.mp h
  refine ⟨by omega, ?_, ?_⟩
  · rw [joined?, if_neg]
    simp only [Bool.and_eq_true, decide_eq_true_eq]
    omega
  · rw [joined?, if_neg]
    simp only [Bool.and_eq_true, decide_eq_true_eq]
    omega

theorem points_lt (cs : List Char) : ∀ n ∈ points cs, n < 0x110000 := by
  have hpair (c d : Char) : pairPoint c d < 0x110000 := by
    have hd := (toNat_bounds d).1
    unfold pairPoint firstMark firstIndex
    split_ifs
    all_goals omega
  fun_induction points cs with
  | case1 => exact fun _ h => nomatch h
  | case2 c => exact List.forall_mem_singleton.mpr (toNat_bounds c).1
  | case3 c d r _ ih => exact List.forall_mem_cons.mpr ⟨hpair c d, ih⟩
  | case4 c d r _ ih => exact List.forall_mem_cons.mpr ⟨(toNat_bounds c).1, ih⟩

/-- What stands first is the first code point or the character that it begins. -/
theorem joined?_head_joinHalves (h : ∀ b, ns.head? = some b → joined? a b = none) :
    ∀ m, (joinHalves ns).head? = some m → joined? a m = none := by
  intro m hm
  fun_cases joinHalves ns with
  | case1 => cases hm
  | case2 n => exact h m hm
  | case3 b c r n hj =>
    rw [joinHalves, hj] at hm
    cases hm
    exact (joined?_of_joined hj a).2.2
  | case4 b c r hj =>
    rw [joinHalves, hj] at hm
    exact h m hm

theorem AreApart.cons (hn : n < 0x110000) (h : AreApart ns)
    (hj : ∀ m, ns.head? = some m → joined? n m = none) : AreApart (n :: ns) :=
  ⟨List.forall_mem_cons.mpr ⟨hn, h.bounded⟩, List.isChain_cons.mpr ⟨hj, h.unjoined⟩⟩

theorem joinHalves_areApart (hb : ∀ n ∈ ns, n < 0x110000) : AreApart (joinHalves ns) := by
  fun_induction joinHalves ns with
  | case1 => exact ⟨hb, .nil⟩
  | case2 n => exact ⟨hb, .singleton n⟩
  | case3 a b r n hj ih =>
    have hn := joined?_of_joined hj
    apply AreApart.cons (hn 0).1
    · exact ih fun m hm => hb m (List.mem_cons_of_mem a (List.mem_cons_of_mem b hm))
    · exact fun m _ => (hn m).2.1
  | case4 a b r hj ih =>
    apply AreApart.cons (hb a List.mem_cons_self)
    · exact ih fun m hm => hb m (List.mem_cons_of_mem a hm)
    · apply joined?_head_joinHalves
      intro c hc
      cases hc
      exact hj

theorem joinHalves_of_areApart (h : AreApart ns) : joinHalves ns = ns := by
  fun_induction joinHalves ns with
  | case1 => rfl
  | case2 => rfl
  | case3 a b r n hj ih =>
    have hnone := (List.isChain_cons_cons.mp h.unjoined).1
    rw [hj] at hnone
    cases hnone
  | case4 a b r hj ih => rw [ih h.tail]

theorem rejoined_isWhole (s : String) : IsWhole (rejoined s) :=
  ⟨_, joinHalves_areApart (points_lt s.toList), String.toList_ofList⟩

/-- Exactly the whole texts are read as they are. -/
theorem rejoined_eq_iff : rejoined s = s ↔ IsWhole s := by
  constructor
  · intro h
    rw [← h]
    exact rejoined_isWhole s
  · intro h
    rw [rejoined, joinHalves_of_areApart h.apart, h.ofPoints_points, String.ofList_toList]

end ChunkBuild.Text
