/-!
# Halves of characters

A character beyond the first plane is written in some notations as two halves, U+D800 to U+DBFF and
U+DC00 to U+DFFF. A half that stands alone is no character, so a text writes it as a pair of
characters from the end of the last plane: a mark, which says what is written, and an index. The
marks and indices themselves are written as such pairs too. No pair begins inside another, so
looking for a written text finds it between whole code points only. Main statement: the code points
that are written are read back.
-/
namespace ChunkBuild.Text

def isHalf (n : Nat) : Bool := 0xD800 ≤ n && n < 0xE000

/-- The first of three marks: for a half, for a character that is an index and for one that is a
mark. -/
def firstMark : Nat := 0x10F7FD

def firstIndex : Nat := 0x10F800

def isMark (c : Char) : Bool := firstMark ≤ c.toNat && c.toNat < firstIndex

def isIndex (c : Char) : Bool := firstIndex ≤ c.toNat

def pairOf (mark index : Nat) : List Char :=
  [Char.ofNat (firstMark + mark), Char.ofNat (firstIndex + index)]

def charsOf (n : Nat) : List Char :=
  if isHalf n then pairOf 0 (n - 0xD800)
  else if firstIndex ≤ n then pairOf 1 (n - firstIndex)
  else if firstMark ≤ n then pairOf 2 (n - firstMark)
  else [Char.ofNat n]

def ofPoints (ns : List Nat) : List Char := ns.flatMap charsOf

def pairPoint (mark index : Char) : Nat :=
  if mark.toNat = firstMark then 0xD800 + (index.toNat - firstIndex)
  else if mark.toNat = firstMark + 1 then index.toNat
  else firstMark + (index.toNat - firstIndex)

def points : List Char → List Nat
  | [] => []
  | [c] => [c.toNat]
  | c :: d :: r =>
    if isMark c && isIndex d then pairPoint c d :: points r else c.toNat :: points (d :: r)

def letters : List Char → List (List Char)
  | [] => []
  | [c] => [[c]]
  | c :: d :: r => if isMark c && isIndex d then [c, d] :: letters r else [c] :: letters (d :: r)

/-- The number of code points that characters write. -/
def size (cs : List Char) : Nat := cs.countP fun c => !isIndex c

def hasHalf (s : String) : Bool := (points s.toList).any isHalf

def splitLetters (s : String) : List String := (letters s.toList).map String.ofList

def arePreceding : List Nat → List Nat → Bool
  | [], _ => true
  | _ :: _, [] => false
  | m :: r, n :: q => m < n || (m = n && arePreceding r q)

def precedes (s t : String) : Bool := arePreceding (points s.toList) (points t.toList)

def written (s : String) : String := String.ofList (ofPoints (s.toList.map Char.toNat))

/-- A text in its written form as characters, a half as the sign for what cannot be shown. -/
def unwritten (s : String) : String :=
  String.ofList ((points s.toList).map fun n => if isHalf n then '\ufffd' else Char.ofNat n)

def joined? (first second : Nat) : Option Nat :=
  if 0xD800 ≤ first && first < 0xDC00 && 0xDC00 ≤ second && second < 0xE000 then
    some (0x10000 + (first - 0xD800) * 0x400 + (second - 0xDC00))
  else none

/-- Whether a half stands for a byte that is no character, as in the names of files. -/
def isByteHalf (n : Nat) : Bool := 0xDC80 ≤ n && n < 0xDD00

/-! ## Reading back -/

theorem toNat_ofNat {n : Nat} (h : n.isValidChar) : (Char.ofNat n).toNat = n := by
  rw [Char.ofNat, dif_pos h]
  rfl

theorem toNat_mark {k : Nat} (h : k < 3) : (Char.ofNat (firstMark + k)).toNat = firstMark + k :=
  toNat_ofNat (.inr ⟨by unfold firstMark; omega, by unfold firstMark; omega⟩)

theorem toNat_index {i : Nat} (h : i < 0x800) :
    (Char.ofNat (firstIndex + i)).toNat = firstIndex + i :=
  toNat_ofNat (.inr ⟨by unfold firstIndex; omega, by unfold firstIndex; omega⟩)

theorem points_pairOf_append {k i n : Nat} (hk : k < 3) (hi : i < 0x800) (r : List Char)
    (hn : pairPoint (Char.ofNat (firstMark + k)) (Char.ofNat (firstIndex + i)) = n) :
    points (pairOf k i ++ r) = n :: points r := by
  have hm : isMark (Char.ofNat (firstMark + k)) = true := by
    simp only [isMark, toNat_mark hk, Bool.and_eq_true, decide_eq_true_eq]
    unfold firstMark firstIndex
    omega
  have hx : isIndex (Char.ofNat (firstIndex + i)) = true := by
    simp [isIndex, toNat_index hi]
  rw [pairOf, List.cons_append, List.cons_append, List.nil_append, points, hm, hx, ← hn]
  rfl

theorem pairPoint_half {i : Nat} (h : i < 0x800) :
    pairPoint (Char.ofNat (firstMark + 0)) (Char.ofNat (firstIndex + i)) = 0xD800 + i := by
  rw [pairPoint, toNat_mark (by omega), toNat_index h, if_pos (Nat.add_zero _),
    Nat.add_sub_cancel_left]

theorem pairPoint_index {i : Nat} (h : i < 0x800) :
    pairPoint (Char.ofNat (firstMark + 1)) (Char.ofNat (firstIndex + i)) = firstIndex + i := by
  rw [pairPoint, toNat_mark (by omega), toNat_index h, if_neg (by omega), if_pos rfl]

theorem pairPoint_mark {i : Nat} (h : i < 0x800) :
    pairPoint (Char.ofNat (firstMark + 2)) (Char.ofNat (firstIndex + i)) = firstMark + i := by
  rw [pairPoint, toNat_mark (by omega), toNat_index h, if_neg (by omega), if_neg (by omega),
    Nat.add_sub_cancel_left]

theorem points_charsOf_append {n : Nat} (h : n < 0x110000) (r : List Char) :
    points (charsOf n ++ r) = n :: points r := by
  unfold charsOf
  split
  next hh =>
    have hb : 0xD800 ≤ n ∧ n < 0xE000 := by simpa [isHalf] using hh
    have hi : n - 0xD800 < 0x800 := by omega
    refine points_pairOf_append (by omega) hi r ?_
    rw [pairPoint_half hi, Nat.add_sub_of_le hb.1]
  next hh =>
    split
    next hx =>
      have hi : n - firstIndex < 0x800 := by unfold firstIndex; omega
      refine points_pairOf_append (by omega) hi r ?_
      rw [pairPoint_index hi, Nat.add_sub_of_le hx]
    next hx =>
      split
      next hm =>
        have hi : n - firstMark < 0x800 := by
          unfold firstIndex at hx
          unfold firstMark
          omega
        refine points_pairOf_append (by omega) hi r ?_
        rw [pairPoint_mark hi, Nat.add_sub_of_le hm]
      next hm =>
        have hv : n.isValidChar := by
          have : ¬(0xD800 ≤ n ∧ n < 0xE000) := by simpa [isHalf] using hh
          unfold Nat.isValidChar
          omega
        have hk : isMark (Char.ofNat n) = false := by simp [isMark, toNat_ofNat hv, hm]
        cases r with
        | nil => simp [points, toNat_ofNat hv]
        | cons d r => simp [points, hk, toNat_ofNat hv]

theorem points_ofPoints {ns : List Nat} (h : ∀ n ∈ ns, n < 0x110000) :
    points (ofPoints ns) = ns := by
  induction ns with
  | nil => rfl
  | cons n r ih =>
    rw [ofPoints, List.flatMap_cons, points_charsOf_append (h n (by simp))]
    rw [ofPoints] at ih
    rw [ih fun m hm => h m (by simp [hm])]

end ChunkBuild.Text
