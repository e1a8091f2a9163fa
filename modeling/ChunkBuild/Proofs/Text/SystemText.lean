import ChunkBuild.Proofs.Text.Utf8
import ChunkBuild.Text.Utf8
/-! # The ends of system texts

A byte below 0x80 is a code point of its own wherever it stands, so the system gives a text back
with the same ASCII character at its end. -/
namespace ChunkBuild.Text

variable {b low high : UInt8} {bs : Bytes} {n bits skip missing : Nat} {c : Char} {cs : List Char}

theorem low_of_leadingByte (h : leadingByte b = some (missing, low, high, bits)) :
    missing = 0 ∨ 0x80 ≤ low := by
  unfold leadingByte at h
  split_ifs at h
  all_goals cases h
  all_goals first | exact .inl rfl | exact .inr (by decide)

/-- The bytes that continue a code point end before a byte below them. -/
theorem missing_le_of_pointAfter (hb : b < 0x80) (hlow : missing = 0 ∨ 0x80 ≤ low)
    (h : pointAfter? missing low high bits (bs ++ [b]) = some n) : missing ≤ bs.length := by
  induction bs generalizing missing low high bits with
  | nil =>
    cases missing with
    | zero => exact Nat.le_refl 0
    | succ missing =>
      have hlow : 0x80 ≤ low := hlow.resolve_left (Nat.succ_ne_zero missing)
      rw [List.nil_append, pointAfter?, if_neg] at h
      · cases h
      · simp only [Bool.and_eq_true, decide_eq_true_eq, UInt8.le_iff_toNat_le]
        rw [UInt8.lt_iff_toNat_lt] at hb
        rw [UInt8.le_iff_toNat_le] at hlow
        omega
  | cons x bs ih =>
    cases missing with
    | zero => exact Nat.zero_le _
    | succ missing =>
      rw [List.cons_append, pointAfter?] at h
      split at h
      · exact Nat.succ_le_succ (ih (.inr (UInt8.le_refl _)) h)
      · cases h

theorem leadingByte_of_lt (hb : b < 0x80) : leadingByte b = some (0, 0, 0, b.toNat) := by
  rw [leadingByte, if_pos hb]

theorem getLast?_cons_of_some {α : Type} {x y : α} {xs : List α} (h : xs.getLast? = some y) :
    (x :: xs).getLast? = some y := by
  rw [List.getLast?_cons, h]
  rfl

theorem getLast?_systemPoints (hb : b < 0x80) (h : skip ≤ bs.length) :
    (systemPoints skip (bs ++ [b])).getLast? = some b.toNat := by
  induction bs generalizing skip with
  | nil =>
    obtain rfl : skip = 0 := Nat.le_zero.mp h
    rw [List.nil_append, systemPoints, leadingByte_of_lt hb]
    rfl
  | cons x bs ih =>
    cases skip with
    | succ skip =>
      rw [List.cons_append, systemPoints]
      exact ih (Nat.le_of_succ_le_succ h)
    | zero =>
      rw [List.cons_append, systemPoints]
      cases hx : leadingByte x with
      | none => exact getLast?_cons_of_some (ih (Nat.zero_le _))
      | some start =>
        obtain ⟨missing, low, high, bits⟩ := start
        cases hp : pointAfter? missing low high bits (bs ++ [b]) with
        | none =>
          simp only [Option.bind_some, hp, Option.map_none]
          exact getLast?_cons_of_some (ih (Nat.zero_le _))
        | some n =>
          simp only [Option.bind_some, hp, Option.map_some]
          exact getLast?_cons_of_some (ih (missing_le_of_pointAfter hb (low_of_leadingByte hx) hp))

/-- A character that is no index is a code point of its own. -/
theorem points_concat (hc : isIndex c = false) : points (cs ++ [c]) = points cs ++ [c.toNat] := by
  fun_induction points cs with
  | case1 => rfl
  | case2 d => simp [points, hc]
  | case3 d e r hp ih => rw [List.cons_append, List.cons_append, points, if_pos hp, ih]; rfl
  | case4 d e r hp ih =>
    rw [List.cons_append, List.cons_append, points, if_neg hp, ← List.cons_append, ih]
    rfl

theorem systemPointBytes_toNat (hc : c.toNat < 0x80) :
    systemPointBytes c.toNat = [c.toNat.toUInt8] := by
  have hbyte : isByteHalf c.toNat = false := by
    simp only [isByteHalf, Bool.and_eq_false_iff, decide_eq_false_iff_not]
    omega
  rw [systemPointBytes, hbyte, if_neg Bool.false_ne_true, pointBytes, if_pos hc]

/-- The system gives a text back with the same ASCII character at its end. -/
theorem getLast?_systemText {s : String} (hc : c.toNat < 0x80) (h : s.toList.getLast? = some c) :
    (systemText s).toList.getLast? = some c := by
  unfold systemText
  split
  swap
  · exact h
  obtain ⟨cs, hs⟩ := List.getLast?_eq_some_iff.mp h
  have hindex : isIndex c = false := by
    simp only [isIndex, decide_eq_false_iff_not]
    unfold firstIndex
    omega
  have hbytes : systemBytes s = (points cs).flatMap systemPointBytes ++ [c.toNat.toUInt8] := by
    rw [systemBytes, hs, points_concat hindex, List.flatMap_append, List.flatMap_singleton,
      systemPointBytes_toNat hc]
  have hbyte : c.toNat.toUInt8 < 0x80 := by
    rw [UInt8.lt_iff_toNat_lt, toNat_toUInt8 (by omega)]
    exact hc
  obtain ⟨ns, hns⟩ := List.getLast?_eq_some_iff.mp (getLast?_systemPoints hbyte (Nat.zero_le
    ((points cs).flatMap systemPointBytes).length))
  rw [toNat_toUInt8 (by omega)] at hns
  rw [String.toList_ofList, hbytes, hns, ofPoints, List.flatMap_append, List.flatMap_singleton,
    charsOf_toNat (Nat.lt_trans hc (by decide)), List.getLast?_concat]

/-- A text without marks is given back as it is. -/
theorem systemText_of_unmarked {s : String} (h : ∀ c ∈ s.toList, c.toNat < firstMark) :
    systemText s = s := by
  rw [systemText, (isWhole_of_unmarked h).2, if_neg Bool.false_ne_true]

end ChunkBuild.Text
