import ChunkBuild.Json.Printer
import ChunkBuild.Json.Reader
import ChunkBuild.Proofs.Text.Whole
import Mathlib.Tactic.SplitIfs
/-! # Reading back quoted texts

Between quotes the reader sees units, one for most code points and two for those beyond the first
plane. Units that were written for different code points are never put together, as long as the text
is whole. Main statement: a whole text is read back from between its quotes. -/
namespace ChunkBuild.Json

open ChunkBuild.Text

variable {n start : Nat} {ns : List Nat} {r : List Char}

def isShort (n : Nat) : Bool :=
  n = 8 || n = 9 || n = 10 || n = 12 || n = 13 || (32 ≤ n && n ≤ 126)

def firstHalf (n : Nat) : Nat := 0xD800 + (n - 0x10000) / 0x400

def secondHalf (n : Nat) : Nat := 0xDC00 + (n - 0x10000) % 0x400

def unitsOf (n : Nat) : List QuotedUnit :=
  if isShort n then [.char (Char.ofNat n)]
  else if n < 0x10000 then [.unit n]
  else [.unit (firstHalf n), .unit (secondHalf n)]

/-! ## Units -/

theorem hexValue?_hexDigit : ∀ d < 16, hexValue? (hexDigit d) = some d := by decide

theorem hexText_four (n : Nat) : hexText 4 n =
    [hexDigit (n / 16 / 16 / 16 % 16), hexDigit (n / 16 / 16 % 16), hexDigit (n / 16 % 16),
      hexDigit (n % 16)] := rfl

theorem readUnits_unitEscape (hn : n < 0x10000) (hr : r ≠ []) :
    readUnits start (unitEscape n ++ r) =
      (readUnits start r).map fun (us, rest) => (.unit n :: us, rest) := by
  have hvalue : hexUnit? (hexDigit (n / 16 / 16 / 16 % 16)) (hexDigit (n / 16 / 16 % 16))
      (hexDigit (n / 16 % 16)) (hexDigit (n % 16)) = some n := by
    have hd (k : Nat) := hexValue?_hexDigit (k % 16) (Nat.mod_lt k (by omega))
    have he : ((n / 16 / 16 / 16 % 16 * 16 + n / 16 / 16 % 16) * 16 + n / 16 % 16) * 16 + n % 16 =
        n := by omega
    simp only [hexUnit?, hd]
    exact congrArg some he
  have hempty : r.isEmpty = false := List.isEmpty_eq_false_iff.mpr hr
  rw [unitEscape, hexText_four]
  simp only [List.cons_append, List.nil_append]
  rw [readUnits, hvalue, hempty]

theorem readUnits_escape {c x : Char} (hx : escapeValue? c = some x) (hu : c ≠ 'u') :
    readUnits start ('\\' :: c :: r) =
      (readUnits start r).map fun (us, rest) => (.char x :: us, rest) := by
  rw [readUnits, hx]
  all_goals grind

theorem readUnits_char {c : Char} (hq : c ≠ '"') (hb : c ≠ '\\') (hc : 32 ≤ c.toNat) :
    readUnits start (c :: r) =
      (readUnits start r).map fun (us, rest) => (.char c :: us, rest) := by
  rw [readUnits, if_neg (by omega)]
  all_goals grind

/-- The reader sees the units of a written code point, whatever follows. -/
theorem readUnits_escapePoint (hn : n < 0x110000) (hr : r ≠ []) :
    readUnits start (escapePoint n ++ r) =
      (readUnits start r).map fun (us, rest) => (unitsOf n ++ us, rest) := by
  unfold escapePoint
  simp only [Bool.and_eq_true, decide_eq_true_eq]
  split_ifs with h₁ h₂ h₃ h₄ h₅ h₆ h₇ h₈ h₉
  any_goals
    subst n
    exact readUnits_escape rfl (by decide)
  · have hshort : isShort n = true := by simp [isShort, h₈.1, h₈.2]
    have hc : (Char.ofNat n).toNat = n := toNat_ofNat (.inl (by omega))
    have hne {d : Char} (hd : n ≠ d.toNat) : Char.ofNat n ≠ d := by
      rintro rfl
      exact hd hc.symm
    rw [unitsOf, if_pos hshort]
    exact readUnits_char (hne h₁) (hne h₂) (by omega)
  · have hlong : isShort n = false := by
      simp only [isShort, Bool.or_eq_false_iff, Bool.and_eq_false_iff, decide_eq_false_iff_not]
      omega
    rw [unitsOf, hlong, if_neg (by decide), if_pos h₉]
    exact readUnits_unitEscape h₉ hr
  · have hlong : isShort n = false := by
      simp only [isShort, Bool.or_eq_false_iff, Bool.and_eq_false_iff, decide_eq_false_iff_not]
      omega
    have hfirst : firstHalf n < 0x10000 := by unfold firstHalf; omega
    have hsecond : secondHalf n < 0x10000 := by unfold secondHalf; omega
    change readUnits start (unitEscape (firstHalf n) ++ unitEscape (secondHalf n) ++ r) = _
    rw [unitsOf, hlong, if_neg (by decide), if_neg h₉, List.append_assoc,
      readUnits_unitEscape hfirst (by simp [unitEscape]), readUnits_unitEscape hsecond hr]
    cases readUnits start r <;> rfl

theorem readUnits_points (hb : ∀ n ∈ ns, n < 0x110000) :
    readUnits start (ns.flatMap escapePoint ++ '"' :: r) = .ok (ns.flatMap unitsOf, r) := by
  induction ns with
  | nil => rfl
  | cons n ns ih =>
    rw [List.flatMap_cons, List.append_assoc, readUnits_escapePoint (hb n (by simp)) (by simp),
      ih fun m hm => hb m (by simp [hm])]
    rfl

/-! ## Joining the units -/

theorem joined?_halves (hl : 0x10000 ≤ n) (hn : n < 0x110000) :
    joined? (firstHalf n) (secondHalf n) = some n := by
  unfold joined? firstHalf secondHalf
  simp only [Bool.and_eq_true, decide_eq_true_eq]
  rw [if_pos (by omega), Option.some.injEq]
  omega

/-- No first half is the second one of another. -/
theorem joined?_firstHalf {m : Nat} (hn : n < 0x110000) : joined? m (firstHalf n) = none := by
  unfold joined? firstHalf
  simp only [Bool.and_eq_true, decide_eq_true_eq]
  exact if_neg (by omega)

/-- A unit stands for itself when it cannot be put together with what follows. -/
theorem joinUnits_unit {us : List QuotedUnit}
    (h : ∀ m vs, us = .unit m :: vs → joined? n m = none) :
    joinUnits (.unit n :: us) = charsOf n ++ joinUnits us := by
  cases us with
  | nil => rfl
  | cons u us =>
    cases u with
    | char c => rfl
    | unit m => rw [joinUnits, h m us rfl]

theorem charsOf_of_short (h : isShort n) : charsOf n = [Char.ofNat n] := by
  simp only [isShort, Bool.or_eq_true, Bool.and_eq_true, decide_eq_true_eq] at h
  have hc : (Char.ofNat n).toNat = n := toNat_ofNat (.inl (by omega))
  have := charsOf_toNat (c := Char.ofNat n) (by rw [hc]; unfold firstMark; omega)
  rwa [hc] at this

/-- Units of whole code points are joined to the characters that write them: a unit and the next one
come from one code point or from two that keep apart. -/
theorem joinUnits_points (h : AreApart ns) : joinUnits (ns.flatMap unitsOf) = ofPoints ns := by
  induction ns with
  | nil => rfl
  | cons n ns ih =>
    have hn : n < 0x110000 := h.bounded n (by simp)
    rw [List.flatMap_cons, ofPoints, List.flatMap_cons]
    change _ = charsOf n ++ ofPoints ns
    rw [← ih h.tail, unitsOf]
    split_ifs with hs hu
    · rw [charsOf_of_short hs]
      rfl
    · refine joinUnits_unit ?_
      intro m vs hm
      cases ns with
      | nil => cases hm
      | cons k ns =>
        have hk : k < 0x110000 := h.bounded k (by simp)
        rw [List.flatMap_cons, unitsOf] at hm
        split_ifs at hm
        · cases hm
        · cases hm
          exact (List.isChain_cons_cons.mp h.unjoined).1
        · cases hm
          exact joined?_firstHalf hk
    · have hj := joined?_halves (n := n) (by omega) hn
      simp only [List.cons_append, List.nil_append]
      rw [joinUnits, hj]

theorem stringText_toList (s : String) :
    (stringText s).toList = '"' :: ((points s.toList).flatMap escapePoint ++ ['"']) := by
  rw [stringText, String.toList_ofList]
  rfl

/-- A whole text is read back from between its quotes. -/
theorem readText_points {s : String} (h : IsWhole s) :
    readText ((points s.toList).flatMap escapePoint ++ '"' :: r) = .ok (s, r) := by
  rw [readText, readUnits_points h.apart.bounded]
  simp only [Except.map, joinUnits_points h.apart, h.ofPoints_points, String.ofList_toList]

/-! ## Halves side by side -/

/-- The two halves of a character side by side are written as the character is. -/
theorem escapePoint_joinHalves (ns : List Nat) :
    (joinHalves ns).flatMap escapePoint = ns.flatMap escapePoint := by
  have hhalf {a : Nat} (h : 0xD800 ≤ a ∧ a < 0xE000) : escapePoint a = unitEscape a := by
    unfold escapePoint
    simp only [Bool.and_eq_true, decide_eq_true_eq]
    repeat rw [if_neg (by omega)]
    rw [if_pos (by omega)]
  have hpair {a b n : Nat} (h : n = 0x10000 + a * 0x400 + b) (hb : b < 0x400) :
      escapePoint n = unitEscape (0xD800 + a) ++ unitEscape (0xDC00 + b) := by
    have hfirst : (n - 0x10000) / 0x400 = a := by omega
    have hsecond : (n - 0x10000) % 0x400 = b := by omega
    unfold escapePoint
    simp only [Bool.and_eq_true, decide_eq_true_eq]
    repeat rw [if_neg (by omega)]
    rw [hfirst, hsecond]
  fun_induction joinHalves ns with
  | case1 => rfl
  | case2 => rfl
  | case3 a b r n hj ih =>
    obtain ⟨ha, hb, hn⟩ := joined?_eq_some_iff.mp hj
    rw [List.flatMap_cons, List.flatMap_cons, List.flatMap_cons, ih, ← List.append_assoc,
      hpair hn (by omega), Nat.add_sub_of_le ha.1, Nat.add_sub_of_le hb.1, hhalf (a := a) (by omega),
      hhalf (a := b) (by omega)]
  | case4 a b r hj ih =>
    rw [List.flatMap_cons, ih]
    rfl

theorem stringText_rejoined (s : String) : stringText (rejoined s) = stringText s := by
  rw [← String.toList_inj, stringText_toList, stringText_toList, rejoined, String.toList_ofList,
    points_ofPoints (joinHalves_areApart (points_lt s.toList)).bounded, escapePoint_joinHalves]

/-! ## What is printed -/

/-- A character of printed texts: all are in ASCII, and lines end in line feeds only. -/
def IsPlain (c : Char) : Prop := c.toNat < 127 ∧ c ≠ '\r'

instance (c : Char) : Decidable (IsPlain c) := inferInstanceAs (Decidable (_ ∧ _))

theorem hexDigit_plain : ∀ d < 16, IsPlain (hexDigit d) := by decide

theorem unitEscape_plain (n : Nat) : ∀ c ∈ unitEscape n, IsPlain c := by
  have hd (k : Nat) := hexDigit_plain (k % 16) (Nat.mod_lt k (by omega))
  simp only [unitEscape, hexText_four, List.forall_mem_cons]
  exact ⟨by decide, by decide, hd _, hd _, hd _, hd _, by simp⟩

theorem escapePoint_plain (n : Nat) : ∀ c ∈ escapePoint n, IsPlain c := by
  unfold escapePoint
  simp only [Bool.and_eq_true, decide_eq_true_eq]
  split_ifs with h₁ h₂ h₃ h₄ h₅ h₆ h₇ h₈ h₉
  any_goals
    refine forall_mem_of_all ?_
    decide
  · have hc : (Char.ofNat n).toNat = n := toNat_ofNat (.inl (by omega))
    rw [List.forall_mem_singleton, IsPlain, hc]
    refine ⟨by omega, fun h => h₄ ?_⟩
    rw [← hc, h]
    rfl
  · exact unitEscape_plain n
  · exact List.forall_mem_append.mpr ⟨unitEscape_plain _, unitEscape_plain _⟩

theorem stringText_plain (s : String) : ∀ c ∈ (stringText s).toList, IsPlain c := by
  rw [stringText_toList, List.forall_mem_cons, List.forall_mem_append]
  refine ⟨by decide, ?_, forall_mem_of_all (by decide)⟩
  intro c hc
  obtain ⟨n, -, hn⟩ := List.mem_flatMap.mp hc
  exact escapePoint_plain n c hn

end ChunkBuild.Json
