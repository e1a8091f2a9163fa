import ChunkBuild.Json.Printer
import ChunkBuild.Json.Reader
import ChunkBuild.Proofs.Text.Integer
/-! # Reading back integers

The digits of an integer are read as far as they go, so nothing may follow that would be read as part
of the number. -/
namespace ChunkBuild.Json

open ChunkBuild.Text

def extendsNumber (c : Char) : Bool := isAsciiDigit c || c = '.' || c = 'e' || c = 'E'

/-- What may stand behind a value. -/
def Ends (rest : List Char) : Prop := ∀ c r, rest = c :: r → extendsNumber c = false

variable {n : Nat} {rest : List Char} {ds W : List Nat}

theorem isAsciiDigit_digitChar {d : Nat} (h : d < 10) : isAsciiDigit (digitChar d) = true := by
  simp only [isAsciiDigit, toNat_digitChar d h, Bool.and_eq_true, decide_eq_true_eq]
  omega

def AreDigits (ds : List Nat) : Prop := ∀ d ∈ ds, d < 10

theorem areDigits_digitsOf (n : Nat) : AreDigits (digitsOf n) := fun _ h => digitsOf_lt h

def EndsDigits (rest : List Char) : Prop := ∀ c r, rest = c :: r → isAsciiDigit c = false

theorem Ends.digits (hr : Ends rest) : EndsDigits rest := by
  intro c r h
  have hc := hr c r h
  simp only [extendsNumber, Bool.or_eq_false_iff] at hc
  exact hc.1.1.1

theorem span_digits (hd : AreDigits ds) (hr : EndsDigits rest) :
    (ds.map digitChar ++ rest).takeWhile isAsciiDigit = ds.map digitChar ∧
      (ds.map digitChar ++ rest).dropWhile isAsciiDigit = rest := by
  have hall : ∀ c ∈ ds.map digitChar, isAsciiDigit c = true := by
    intro c hc
    obtain ⟨d, hmem, rfl⟩ := List.mem_map.mp hc
    exact isAsciiDigit_digitChar (hd d hmem)
  have hend : rest.takeWhile isAsciiDigit = [] ∧ rest.dropWhile isAsciiDigit = rest := by
    cases rest with
    | nil => exact ⟨rfl, rfl⟩
    | cons c r => simp [hr c r rfl]
  rw [List.takeWhile_append_of_pos hall, List.dropWhile_append_of_pos hall, hend.1, hend.2,
    List.append_nil]
  exact ⟨rfl, rfl⟩

theorem map_asciiValue (hd : AreDigits ds) : (ds.map digitChar).map asciiValue = ds := by
  rw [List.map_map, List.map_congr_left (g := id), List.map_id]
  intro d hmem
  simp [asciiValue, toNat_digitChar d (hd d hmem)]

structure IsWholePart (ds : List Nat) : Prop where
  digits : AreDigits ds
  leading : ∃ d r, ds = d :: r ∧ (d = 0 → r = [])

theorem isWholePart_digitsOf (n : Nat) : IsWholePart (digitsOf n) :=
  ⟨areDigits_digitsOf n, digitsOf_eq_cons n⟩

theorem readWhole_part (hw : IsWholePart W) (hr : EndsDigits rest) :
    readWhole (W.map digitChar ++ rest) = some (W.map digitChar, rest) := by
  obtain ⟨htake, hdrop⟩ := span_digits hw.digits hr
  obtain ⟨d, r, rfl, hzero⟩ := hw.leading
  have hlt : d < 10 := hw.digits d List.mem_cons_self
  by_cases hd : d = 0
  · rw [hzero hd, hd]
    rfl
  · have hne : digitChar d ≠ '0' := by
      intro h
      have hvalue := toNat_digitChar d hlt
      rw [h] at hvalue
      exact hd (by simpa using hvalue)
    rw [List.map_cons, List.cons_append] at htake hdrop ⊢
    rw [readWhole, if_pos (isAsciiDigit_digitChar hlt), htake, hdrop]
    exact fun h => hne h

theorem readFraction_end (hr : Ends rest) : readFraction rest = none := by
  unfold readFraction
  split
  · next r => exact absurd (hr '.' r rfl) (by decide)
  · rfl

theorem readExponent_end (hr : Ends rest) : readExponent rest = none := by
  cases rest with
  | nil => rfl
  | cons c r =>
    have h := hr c r rfl
    simp only [extendsNumber, Bool.or_eq_false_iff, decide_eq_false_iff_not] at h
    rw [readExponent, if_neg]
    simp [h.1.2, h.2]

theorem natText_eq_cons (n : Nat) : ∃ c r, (natText n).toList = c :: r ∧ isAsciiDigit c = true := by
  obtain ⟨d, ds, he, -⟩ := digitsOf_eq_cons n
  refine ⟨digitChar d, ds.map digitChar, ?_, ?_⟩
  · rw [natText_toList, he, List.map_cons]
  · exact isAsciiDigit_digitChar (digitsOf_lt (he ▸ List.mem_cons_self))

/-- A minus is read apart from the digits, none of which is one. -/
theorem readNumber_signed (negative : Bool) (hn : n < 10 ^ digitLimit) (hr : Ends rest) :
    readNumber ((if negative then ['-'] else []) ++ ((natText n).toList ++ rest)) =
      some (.ok (.int (if negative then -(n : Int) else n)), rest) := by
  have hl : ¬ (digitsOf n).length > digitLimit :=
    Nat.not_lt.mpr (digitsOf_length_le (by decide) hn)
  obtain ⟨c, r, hc, hd⟩ := natText_eq_cons n
  unfold readNumber
  split
  next sign body hb =>
  have hsplit : sign = negative ∧ body = (natText n).toList ++ rest := by
    cases negative with
    | true =>
      cases hb
      exact ⟨rfl, rfl⟩
    | false =>
      split at hb
      · next he =>
        rw [hc] at he
        rw [(List.cons.inj he).1] at hd
        cases hd
      · cases hb
        exact ⟨rfl, rfl⟩
  obtain ⟨rfl, rfl⟩ := hsplit
  simp only [natText_toList, readWhole_part (isWholePart_digitsOf n) hr.digits,
    readFraction_end hr, Option.getD_none, readExponent_end hr, List.isEmpty_nil, Option.isNone_none,
    Bool.and_self, if_true, List.length_map, if_neg hl, map_asciiValue (areDigits_digitsOf n),
    ofDigits_digitsOf]

theorem readNumber_int {i : Int} (hi : i.natAbs < 10 ^ digitLimit) (hr : Ends rest) :
    readNumber ((intText i).toList ++ rest) = some (.ok (.int i), rest) := by
  cases i with
  | ofNat n => exact readNumber_signed false hi hr
  | negSucc n =>
    rw [intText, String.toList_append, List.append_assoc]
    exact readNumber_signed true hi hr

theorem intText_eq_cons (i : Int) : ∃ c r, (intText i).toList = c :: r ∧
    (isAsciiDigit c = true ∨ c = '-' ∧ ∃ d q, r = d :: q ∧ isAsciiDigit d = true) := by
  cases i with
  | ofNat n =>
    obtain ⟨c, r, hc, hd⟩ := natText_eq_cons n
    exact ⟨c, r, hc, .inl hd⟩
  | negSucc n =>
    obtain ⟨d, q, hd, hq⟩ := natText_eq_cons (n + 1)
    refine ⟨'-', d :: q, ?_, .inr ⟨rfl, d, q, rfl, hq⟩⟩
    rw [intText, String.toList_append, hd]
    rfl

/-- What starts with a digit or with a minus and a digit is no word. -/
theorem readScalar_of_number {c : Char} {r : List Char} {v : Value}
    (hc : isAsciiDigit c = true ∨ c = '-' ∧ ∃ d q, r = d :: q ∧ isAsciiDigit d = true)
    (hn : readNumber (c :: r) = some (.ok v, rest)) : readScalar (c :: r) = .ok (v, rest) := by
  have hword : isAsciiDigit 'n' = false ∧ isAsciiDigit 't' = false ∧ isAsciiDigit 'f' = false ∧
      isAsciiDigit 'N' = false ∧ isAsciiDigit 'I' = false ∧ isAsciiDigit '-' = false := by decide
  unfold readScalar
  split
  all_goals grind

theorem readScalar_int {i : Int} (hi : i.natAbs < 10 ^ digitLimit) (hr : Ends rest) :
    readScalar ((intText i).toList ++ rest) = .ok (.int i, rest) := by
  have hn := readNumber_int hi hr
  obtain ⟨c, r, hc, hd⟩ := intText_eq_cons i
  rw [hc, List.cons_append] at hn ⊢
  refine readScalar_of_number ?_ hn
  rcases hd with hd | ⟨hminus, d, q, rfl, hd⟩
  · exact .inl hd
  · exact .inr ⟨hminus, d, q ++ rest, rfl, hd⟩

end ChunkBuild.Json
