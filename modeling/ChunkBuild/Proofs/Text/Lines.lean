import ChunkBuild.Proofs.Text.Pieces
import Mathlib.Algebra.GroupWithZero.Nat
/-! # Lines with characters taken away

Lines are what stands between line feeds. A text from which no line feed is taken has its lines where
they were. Main statement: each line is left with those of its characters that are not taken, the
positions being counted over the whole text. -/
namespace ChunkBuild.Text

variable {taken : Nat → Bool} {start : Nat} {t x r : List Char} {c d : Char} {s : String}

/-- A text without the characters at certain positions, the first one standing at `start`. -/
def without (taken : Nat → Bool) : (start : Nat) → List Char → List Char
  | _, [] => []
  | i, c :: r => if taken i then without taken (i + 1) r else c :: without taken (i + 1) r

def lineStart (lines : List String) (k : Nat) : Nat :=
  ((lines.take k).map fun line => line.toList.length + 1).sum

/-- Whether a character belongs to a line break: a line feed, or a return directly before one. -/
def isBreakAt (t : List Char) (i : Nat) : Bool :=
  t[i]? = some '\n' || (t[i]? = some '\r' && t[i + 1]? = some '\n')

def breaksIn (t : List Char) : List Char := without (fun i => !isBreakAt t i) 0 t

/-! ## Positions -/

theorem without_shift (taken : Nat → Bool) (n start : Nat) (t : List Char) :
    without taken (n + start) t = without (fun i => taken (n + i)) start t := by
  induction t generalizing start with
  | nil => rfl
  | cons c t ih => rw [without, without, Nat.add_assoc, ih]

theorem without_append (taken : Nat → Bool) (start : Nat) (x r : List Char) :
    without taken start (x ++ r) = without taken start x ++ without taken (start + x.length) r := by
  induction x generalizing start with
  | nil => rfl
  | cons c x ih =>
    have hlength : start + 1 + x.length = start + (c :: x).length := by
      rw [List.length_cons]
      omega
    rw [List.cons_append, without, without, ih, hlength]
    split_ifs
    · rfl
    · rfl

theorem without_of_untaken (h : ∀ i, i < t.length → taken (start + i) = false) :
    without taken start t = t := by
  induction t generalizing start with
  | nil => rfl
  | cons c t ih =>
    have hc : taken start = false := h 0 (Nat.zero_lt_succ _)
    have ht : without taken (start + 1) t = t := by
      apply ih
      intro i hi
      rw [Nat.add_assoc, Nat.add_comm 1]
      exact h (i + 1) (Nat.succ_lt_succ hi)
    rw [without, hc, ht]
    rfl

theorem without_congr {other : Nat → Bool}
    (h : ∀ i, i < t.length → taken (start + i) = other (start + i)) :
    without taken start t = without other start t := by
  induction t generalizing start with
  | nil => rfl
  | cons c t ih =>
    have hc : taken start = other start := h 0 (Nat.zero_lt_succ _)
    have ht : without taken (start + 1) t = without other (start + 1) t := by
      apply ih
      intro i hi
      rw [Nat.add_assoc, Nat.add_comm 1]
      exact h (i + 1) (Nat.succ_lt_succ hi)
    rw [without, without, hc, ht]

/-! ## Line breaks -/

theorem isBreakAt_cons (c : Char) (t : List Char) (i : Nat) :
    isBreakAt (c :: t) (i + 1) = isBreakAt t i := rfl

theorem isBreakAt_append (x t : List Char) (i : Nat) :
    isBreakAt (x ++ t) (x.length + i) = isBreakAt t i := by
  rw [isBreakAt, isBreakAt, Nat.add_assoc, List.getElem?_append_right (Nat.le_add_right _ _),
    List.getElem?_append_right (Nat.le_add_right _ _), Nat.add_sub_cancel_left,
    Nat.add_sub_cancel_left]

/-- What follows a text counts only for a return at its end. -/
theorem isBreakAt_append_left {i : Nat} (hi : i < x.length)
    (h : x.getLast? ≠ some '\r') : isBreakAt (x ++ r) i = isBreakAt x i := by
  rw [isBreakAt, isBreakAt, List.getElem?_append_left hi]
  by_cases hlast : i + 1 < x.length
  · rw [List.getElem?_append_left hlast]
  · have hend : x[i]? = x.getLast? := by
      rw [List.getLast?_eq_getElem?]
      congr 1
      omega
    rw [hend]
    simp [h]

/-! ## Lines -/

theorem splitOn_letter_self (d : Char) (r : List Char) :
    splitOn [d] (d :: r) = [] :: splitOn [d] r := by
  simp [splitOn, splitFrom]

theorem splitOn_letter_of_ne (h : c ≠ d) (r : List Char) :
    splitOn [d] (c :: r) = consFirst c (splitOn [d] r) := by
  simp [splitOn, splitFrom, Ne.symm h]

theorem length_splitOn_letter (d : Char) (t : List Char) :
    (splitOn [d] t).length = t.count d + 1 := by
  induction t with
  | nil => rfl
  | cons c t ih =>
    by_cases h : c = d
    · subst h
      rw [splitOn_letter_self, List.length_cons, ih, List.count_cons_self]
    · obtain ⟨l, ls, hl⟩ := List.exists_cons_of_ne_nil (splitFrom_ne_nil [d] t 0)
      have hsplit : splitOn [d] t = l :: ls := hl
      rw [splitOn_letter_of_ne h, List.count_cons_of_ne h, ← ih, hsplit]
      rfl

def linesWithout (taken : Nat → Bool) : (start : Nat) → List (List Char) → List (List Char)
  | _, [] => []
  | i, l :: ls => without taken i l :: linesWithout taken (i + l.length + 1) ls

theorem getElem?_linesWithout (taken : Nat → Bool) (start : Nat) (ls : List (List Char)) (k : Nat) :
    (linesWithout taken start ls)[k]? =
      ls[k]?.map (without taken (start + ((ls.take k).map fun l => l.length + 1).sum)) := by
  induction ls generalizing start k with
  | nil => rfl
  | cons l ls ih =>
    cases k with
    | zero => rfl
    | succ k =>
      rw [linesWithout, List.getElem?_cons_succ, ih, List.getElem?_cons_succ, List.take_succ_cons,
        List.map_cons, List.sum_cons]
      congr 2
      omega

theorem length_linesWithout (taken : Nat → Bool) (start : Nat) (ls : List (List Char)) :
    (linesWithout taken start ls).length = ls.length := by
  induction ls generalizing start with
  | nil => rfl
  | cons l ls ih => rw [linesWithout, List.length_cons, List.length_cons, ih]

theorem linesWithout_consFirst (taken : Nat → Bool) (start : Nat) (c : Char) (l : List Char)
    (ls : List (List Char)) : linesWithout taken start (consFirst c (l :: ls)) =
      without taken start (c :: l) :: linesWithout taken (start + 1 + l.length + 1) ls := by
  rw [consFirst, linesWithout, List.length_cons]
  congr 2
  omega

/-- Taking characters away and splitting can be done in either order when line feeds stay. -/
theorem splitOn_without (h : ∀ i, t[i]? = some '\n' → taken (start + i) = false) :
    splitOn ['\n'] (without taken start t) = linesWithout taken start (splitOn ['\n'] t) := by
  induction t generalizing start with
  | nil => rfl
  | cons c t ih =>
    have hrest : splitOn ['\n'] (without taken (start + 1) t) =
        linesWithout taken (start + 1) (splitOn ['\n'] t) := by
      apply ih
      intro i hi
      rw [Nat.add_assoc, Nat.add_comm 1]
      exact h (i + 1) hi
    by_cases hc : c = '\n'
    · subst hc
      have hkept : taken start = false := h 0 rfl
      rw [without, hkept, if_neg Bool.false_ne_true, splitOn_letter_self, splitOn_letter_self, hrest]
      rfl
    · obtain ⟨l, ls, hl⟩ := List.exists_cons_of_ne_nil (splitFrom_ne_nil ['\n'] t 0)
      have hsplit : splitOn ['\n'] t = l :: ls := hl
      rw [splitOn_letter_of_ne hc, hsplit, linesWithout_consFirst, without, without]
      rw [hsplit, linesWithout] at hrest
      cases ht : taken start with
      | true =>
        rw [if_pos rfl, if_pos rfl]
        exact hrest
      | false =>
        rw [if_neg Bool.false_ne_true, if_neg Bool.false_ne_true, splitOn_letter_of_ne hc, hrest]
        rfl

theorem lineStart_split (s : String) (k : Nat) : lineStart (split "\n" s) k =
    (((splitOn ['\n'] s.toList).take k).map fun l => l.length + 1).sum := by
  have hlines : (split "\n" s).map String.toList = splitOn ['\n'] s.toList :=
    map_toList_split "\n" s
  rw [lineStart, ← hlines, ← List.map_take, List.map_map]
  rfl

theorem split_without (h : ∀ i, s.toList[i]? = some '\n' → taken i = false) :
    split "\n" (String.ofList (without taken 0 s.toList)) =
      (linesWithout taken 0 (splitOn ['\n'] s.toList)).map String.ofList := by
  have hkept : ∀ i, s.toList[i]? = some '\n' → taken (0 + i) = false := by
    intro i hi
    rw [Nat.zero_add]
    exact h i hi
  have htext : (String.ofList (without taken 0 s.toList)).toList = without taken 0 s.toList :=
    String.toList_ofList
  rw [split, htext, ← splitOn_without hkept]
  rfl

theorem length_split_without (h : ∀ i, s.toList[i]? = some '\n' → taken i = false) :
    (split "\n" (String.ofList (without taken 0 s.toList))).length = (split "\n" s).length := by
  rw [split_without h, split, List.length_map, List.length_map, length_linesWithout]
  rfl

/-- A line is left with those of its characters that are not taken. -/
theorem line_without (h : ∀ i, s.toList[i]? = some '\n' → taken i = false) (k : Nat) :
    (split "\n" (String.ofList (without taken 0 s.toList)))[k]? =
      (split "\n" s)[k]?.map fun line =>
        String.ofList (without taken (lineStart (split "\n" s) k) line.toList) := by
  have hline : (split "\n" s)[k]? = (splitOn ['\n'] s.toList)[k]?.map String.ofList :=
    List.getElem?_map
  rw [split_without h, List.getElem?_map, getElem?_linesWithout, hline, lineStart_split,
    Option.map_map, Option.map_map, Nat.zero_add]
  congr 1
  funext line
  rw [Function.comp_apply, Function.comp_apply, String.toList_ofList]

end ChunkBuild.Text
