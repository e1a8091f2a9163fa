import ChunkBuild.Proofs.Json.Reads
import ChunkBuild.Proofs.Json.Integer
import ChunkBuild.Proofs.Number.Shortest
/-! # Reading back doubles

A double is written with a point or with an exponent. Its digits are those of its shortest decimal, with
zeros before or behind them that the place of the point makes up for, so the same double is read. -/
namespace ChunkBuild.Json

open ChunkBuild.Text ChunkBuild.Number

variable {s rest : List Char} {W F : List Nat} {negative : Bool} {n : Nat}

/-! ## Digits -/

theorem endsDigits_cons {c : Char} (hc : isAsciiDigit c = false) : EndsDigits (c :: s) := by
  rintro _ _ ⟨⟩
  exact hc

theorem areDigits_zeros (n : Nat) : AreDigits (List.replicate n 0) := by
  intro d hd
  rw [List.eq_of_mem_replicate hd]
  decide

theorem ofDigits_append (ds es : List Nat) :
    ofDigits (ds ++ es) = ofDigits ds * 10 ^ es.length + ofDigits es := by
  rw [ofDigits_eq, ofDigits_eq, ofDigits_eq, List.reverse_append, Nat.ofDigits_append,
    List.length_reverse]
  ring

theorem ofDigits_zeros (n : Nat) : ofDigits (List.replicate n 0) = 0 := by
  rw [ofDigits_eq, List.reverse_replicate, Nat.ofDigits_replicate_zero]

/-! ## Parts of a number -/

theorem isWholePart_zero : IsWholePart [0] :=
  ⟨List.forall_mem_singleton.mpr (by decide), 0, [], rfl, fun _ => rfl⟩

theorem readFraction_point (hF : AreDigits F) (hne : F ≠ []) (hr : EndsDigits rest) :
    readFraction ('.' :: (F.map digitChar ++ rest)) = some (F.map digitChar, rest) := by
  obtain ⟨htake, hdrop⟩ := span_digits hF hr
  rw [readFraction, htake, hdrop, if_neg]
  simpa using hne

theorem readExponent_signed (negative : Bool) {E : List Nat} (hE : AreDigits E) (hne : E ≠ [])
    (hr : EndsDigits rest) :
    readExponent ('e' :: (if negative then '-' else '+') :: (E.map digitChar ++ rest)) =
      some (if negative then -(ofDigits E : Int) else ofDigits E, rest) := by
  obtain ⟨htake, hdrop⟩ := span_digits hE hr
  have hsign : readSign ((if negative then '-' else '+') :: (E.map digitChar ++ rest)) =
      (negative, E.map digitChar ++ rest) := by
    cases negative with
    | false => rfl
    | true => rfl
  have hempty : (E.map digitChar).isEmpty = false := by simpa using hne
  rw [readExponent, hsign]
  dsimp only
  rw [htake, hdrop, hempty, map_asciiValue hE]
  rfl

theorem unsigned_signed (negative : Bool) (hw : IsWholePart W) (rest : List Char) :
    unsigned ((if negative then ['-'] else []) ++ (W.map digitChar ++ rest)) =
      (negative, W.map digitChar ++ rest) := by
  cases negative with
  | true => rfl
  | false =>
    obtain ⟨d, r, rfl, -⟩ := hw.leading
    have hdigit := isAsciiDigit_digitChar (hw.digits d List.mem_cons_self)
    have hne : digitChar d ≠ '-' := by
      intro h
      rw [h] at hdigit
      cases hdigit
    rw [if_neg Bool.false_ne_true, List.nil_append, List.map_cons, List.cons_append, unsigned]
    exact fun _ hcons => hne (List.cons.inj hcons).1

/-- A number in its parts, which is no word. It is no integer when there is a fraction or an exponent. -/
theorem readScalar_parts (negative : Bool) (exponent : Option Int) (hw : IsWholePart W)
    (hF : AreDigits F) {q p : List Char} (hq : EndsDigits q)
    (hf : (readFraction q).getD ([], q) = (F.map digitChar, p))
    (hx : readExponent p = exponent.map (·, rest)) (hrest : exponent = none → p = rest)
    (hfloat : F = [] → exponent ≠ none) :
    readScalar ((if negative then ['-'] else []) ++ (W.map digitChar ++ q)) =
      .ok (.float (ofDecimal negative (ofDigits (W ++ F)) (exponent.getD 0 - F.length)), rest) := by
  have hdigits : AreDigits (W ++ F) := List.forall_mem_append.mpr ⟨hw.digits, hF⟩
  have hno : ((F.map digitChar).isEmpty && exponent.isNone) = false := by
    rw [Bool.and_eq_false_iff, List.isEmpty_eq_false_iff, ne_eq, List.map_eq_nil_iff]
    by_cases hempty : F = []
    · exact .inr (Option.isNone_eq_false_iff.mpr (Option.ne_none_iff_isSome.mp (hfloat hempty)))
    · exact .inl hempty
  have hvalue : Numeral.value ⟨negative, W.map digitChar, F.map digitChar, exponent⟩ =
      .ok (.float (ofDecimal negative (ofDigits (W ++ F)) (exponent.getD 0 - F.length))) := by
    simp only [Numeral.value, hno, Bool.false_eq_true, if_false, ← List.map_append,
      map_asciiValue hdigits, List.length_map]
  have hn : readNumber ((if negative then ['-'] else []) ++ (W.map digitChar ++ q)) =
      some (Numeral.value ⟨negative, W.map digitChar, F.map digitChar, exponent⟩, rest) := by
    rw [readNumber_eq, readNumeral, unsigned_signed negative hw]
    dsimp only
    rw [readWhole_part hw hq]
    dsimp only [Option.map_some]
    rw [hf]
    dsimp only
    rw [hx]
    cases exponent with
    | some e => rfl
    | none =>
      rw [hrest rfl]
      rfl
  rw [hvalue] at hn
  obtain ⟨d, r, rfl, -⟩ := hw.leading
  have hdigit := isAsciiDigit_digitChar (hw.digits d List.mem_cons_self)
  cases negative with
  | true => exact readScalar_of_number (.inr ⟨rfl, _, _, rfl, hdigit⟩) hn
  | false => exact readScalar_of_number (.inl hdigit) hn

theorem readScalar_point (negative : Bool) (hw : IsWholePart W) (hF : AreDigits F) (hne : F ≠ [])
    (hr : Ends rest) : readScalar ((if negative then ['-'] else []) ++
        (W.map digitChar ++ '.' :: (F.map digitChar ++ rest))) =
      .ok (.float (ofDecimal negative (ofDigits (W ++ F)) (-F.length)), rest) := by
  rw [← zero_sub]
  refine readScalar_parts negative none hw hF (endsDigits_cons (by decide)) ?_
    (readExponent_end hr) (fun _ => rfl) (fun h => absurd h hne)
  rw [readFraction_point hF hne hr.digits]
  rfl

/-- A digit with an exponent, further digits standing between them behind a point. -/
theorem readScalar_exponent (negative : Bool) {d : Nat} (hd : d < 10) (hF : AreDigits F)
    {E : List Nat} (hE : AreDigits E) (hne : E ≠ []) (below : Bool) (hr : Ends rest) :
    readScalar ((if negative then ['-'] else []) ++ ([d].map digitChar ++
        ((if F = [] then [] else '.' :: F.map digitChar) ++
          'e' :: (if below then '-' else '+') :: (E.map digitChar ++ rest)))) =
      .ok (.float (ofDecimal negative (ofDigits (d :: F))
        ((if below then -(ofDigits E : Int) else ofDigits E) - F.length)), rest) := by
  have hw : IsWholePart [d] := ⟨List.forall_mem_singleton.mpr hd, d, [], rfl, fun _ => rfl⟩
  have hexponent := readExponent_signed below hE hne hr.digits
  have hend (r : List Char) : EndsDigits ('e' :: r) := endsDigits_cons (by decide)
  by_cases hempty : F = []
  · subst hempty
    exact readScalar_parts negative (some _) hw hF (hend _) rfl hexponent (fun h => nomatch h)
      (fun _ h => nomatch h)
  · rw [if_neg hempty, List.cons_append]
    refine readScalar_parts negative (some _) hw hF (endsDigits_cons (by decide)) ?_ hexponent
      (fun h => nomatch h) (fun _ h => nomatch h)
    rw [readFraction_point hF hempty (hend _)]
    rfl

/-! ## Texts of doubles -/

def exponentDigits (e : Int) : List Nat :=
  if (digitsOf e.natAbs).length < 2 then 0 :: digitsOf e.natAbs else digitsOf e.natAbs

theorem exponentText_toList (e : Int) : (exponentText e).toList =
    'e' :: (if decide (e < 0) then '-' else '+') :: (exponentDigits e).map digitChar := by
  have hlength : (natText e.natAbs).length = (digitsOf e.natAbs).length := by
    rw [← String.length_toList, natText_toList, List.length_map]
  have hsign : (if e < 0 then "-" else "+").toList = [if decide (e < 0) then '-' else '+'] := by
    by_cases h : e < 0
    · simp [h]
    · simp [h]
  rw [exponentText, String.toList_append, String.toList_append, hsign, hlength, exponentDigits]
  by_cases hshort : (digitsOf e.natAbs).length < 2
  · rw [if_pos hshort, if_pos hshort, String.toList_append, natText_toList]
    rfl
  · rw [if_neg hshort, if_neg hshort, natText_toList]
    rfl

theorem exponentDigits_spec (e : Int) : AreDigits (exponentDigits e) ∧ exponentDigits e ≠ [] ∧
    (if decide (e < 0) then -(ofDigits (exponentDigits e) : Int) else ofDigits (exponentDigits e)) =
      e := by
  obtain ⟨d, r, hcons, -⟩ := digitsOf_eq_cons e.natAbs
  have hdigits := areDigits_digitsOf e.natAbs
  have hvalue : ofDigits (exponentDigits e) = e.natAbs := by
    have hzero (ds : List Nat) : ofDigits (0 :: ds) = ofDigits ds := rfl
    unfold exponentDigits
    split
    · rw [hzero, ofDigits_digitsOf]
    · exact ofDigits_digitsOf _
  refine ⟨?_, ?_, ?_⟩
  · unfold exponentDigits
    split
    · exact List.forall_mem_cons.mpr ⟨by decide, hdigits⟩
    · exact hdigits
  · unfold exponentDigits
    split
    · exact List.cons_ne_nil _ _
    · rw [hcons]
      exact List.cons_ne_nil d r
  · rw [hvalue]
    simp only [decide_eq_true_eq]
    split
    all_goals omega

theorem zeros_toList (n : Nat) : (zeros n).toList = (List.replicate n 0).map digitChar := by
  rw [zeros, String.toList_ofList, List.map_replicate]
  rfl

theorem ofDigits_ne_zero {d : Nat} {r : List Nat} (hd : d ≠ 0) : ofDigits (d :: r) ≠ 0 := by
  rw [← List.singleton_append, ofDigits_append]
  have hone : ofDigits [d] = d := by simp [ofDigits]
  rw [hone]
  have hpos := Nat.mul_pos (Nat.pos_of_ne_zero hd) (Nat.pow_pos (n := r.length) (show 0 < 10 by decide))
  omega

/-- A text that is read as the double nearest to a positive number, behind a minus as its opposite. -/
def IsDecimalOf (r : ℚ) (text : List Char) : Prop :=
  ∀ (negative : Bool) (rest : List Char), Ends rest →
    readScalar ((if negative then ['-'] else []) ++ (text ++ rest)) =
      .ok (.float (nearest negative r), rest)

theorem isDecimalOf {digits : Nat} {scale : Int} {text : List Char} (hd : digits ≠ 0)
    (h : ∀ (negative : Bool) (rest : List Char), Ends rest →
      readScalar ((if negative then ['-'] else []) ++ (text ++ rest)) =
        .ok (.float (ofDecimal negative digits scale), rest)) :
    IsDecimalOf (digits * 10 ^ scale) text := by
  intro negative rest hr
  rw [h negative rest hr, ofDecimal_eq negative hd]

section PointText

variable {d : Nat} {r : List Nat} (hd : d ≠ 0) (hdigits : AreDigits (d :: r))
include hd hdigits

theorem isDecimalOf_exponent (e : Int) : IsDecimalOf (ofDigits (d :: r) * 10 ^ (e - r.length))
    ([d].map digitChar ++ ((if r = [] then [] else '.' :: r.map digitChar) ++
      (exponentText e).toList)) := by
  obtain ⟨hE, hne, hvalue⟩ := exponentDigits_spec e
  obtain ⟨hlt, hr⟩ := List.forall_mem_cons.mp hdigits
  refine isDecimalOf (ofDigits_ne_zero hd) fun negative rest hrest => ?_
  have hread := readScalar_exponent negative hlt hr hE hne (decide (e < 0)) hrest
  rw [hvalue] at hread
  rw [exponentText_toList, ← hread]
  simp only [List.append_assoc, List.cons_append]

theorem isDecimalOf_small (n : Nat) :
    IsDecimalOf (ofDigits (d :: r) * 10 ^ (-((n + (d :: r).length : Nat) : Int)))
      ('0' :: '.' :: ((List.replicate n 0).map digitChar ++ (d :: r).map digitChar)) := by
  have hvalue : ofDigits ([0] ++ (List.replicate n 0 ++ d :: r)) = ofDigits (d :: r) := by
    rw [ofDigits_append, ofDigits_append, ofDigits_zeros, Nat.zero_mul, Nat.zero_add]
    exact Nat.add_eq_right.mpr (Nat.zero_mul _)
  refine isDecimalOf (ofDigits_ne_zero hd) fun negative rest hrest => ?_
  have hread := readScalar_point negative isWholePart_zero
    (List.forall_mem_append.mpr ⟨areDigits_zeros n, hdigits⟩)
    (List.append_ne_nil_of_right_ne_nil _ (List.cons_ne_nil d r)) hrest
  rw [hvalue, List.length_append, List.length_replicate] at hread
  rw [← List.map_append]
  exact hread

theorem isDecimalOf_large (n : Nat) : IsDecimalOf (ofDigits (d :: r) * 10 ^ (n : Int))
    ((d :: r).map digitChar ++ ((List.replicate n 0).map digitChar ++ ['.', '0'])) := by
  have hw : IsWholePart (d :: r ++ List.replicate n 0) :=
    ⟨List.forall_mem_append.mpr ⟨hdigits, areDigits_zeros n⟩, d, _, rfl, fun h => absurd h hd⟩
  have hvalue : ofDigits (d :: r ++ List.replicate n 0 ++ [0]) = ofDigits (d :: r) * 10 ^ (n + 1) := by
    rw [ofDigits_append, ofDigits_append, ofDigits_zeros, List.length_replicate, Nat.pow_succ,
      Nat.add_zero, Nat.mul_assoc]
    rfl
  have hscaled : (ofDigits (d :: r) : ℚ) * 10 ^ (n : Int) =
      ((ofDigits (d :: r) * 10 ^ (n + 1) : Nat) : ℚ) * 10 ^ (-1 : Int) := by
    push_cast
    rw [mul_assoc, ← zpow_natCast, ← zpow_add₀ (by norm_num)]
    norm_num
  rw [hscaled]
  refine isDecimalOf ?_ fun negative rest hrest => ?_
  · exact Nat.mul_ne_zero (ofDigits_ne_zero hd) (Nat.pow_pos (by decide)).ne'
  · have hread := readScalar_point negative hw (areDigits_zeros 1) (List.cons_ne_nil 0 []) hrest
    rw [List.replicate_one, hvalue, List.map_append] at hread
    rw [List.append_assoc] at hread
    rw [List.append_assoc, List.append_assoc]
    exact hread

theorem isDecimalOf_middle {n : Nat} (hn : 0 < n) (hlt : n < (d :: r).length) :
    IsDecimalOf (ofDigits (d :: r) * 10 ^ (-(((d :: r).length - n : Nat) : Int)))
      (((d :: r).map digitChar).take n ++ '.' :: ((d :: r).map digitChar).drop n) := by
  have hw : IsWholePart ((d :: r).take n) := by
    obtain ⟨k, rfl⟩ : ∃ k, n = k + 1 := ⟨n - 1, by omega⟩
    exact ⟨fun c hc => hdigits c (List.mem_of_mem_take hc), d, r.take k, rfl, fun h => absurd h hd⟩
  have hF : AreDigits ((d :: r).drop n) := fun c hc => hdigits c (List.mem_of_mem_drop hc)
  have hne : (d :: r).drop n ≠ [] := by
    rw [ne_eq, List.drop_eq_nil_iff]
    omega
  refine isDecimalOf (ofDigits_ne_zero hd) fun negative rest hrest => ?_
  have hread := readScalar_point negative hw hF hne hrest
  rw [List.take_append_drop, List.length_drop] at hread
  rw [← List.map_take, ← List.map_drop, List.append_assoc, List.cons_append]
  exact hread

end PointText

/-- The text of digits with a point writes their decimal. -/
theorem isDecimalOf_pointText {digits : Nat} (hd : digits ≠ 0) (scale : Int) :
    IsDecimalOf (digits * 10 ^ scale) (pointText (natText digits).toList
      ((natText digits).toList.length + scale)).toList := by
  obtain ⟨d, r, hcons, hzero⟩ := digitsOf_eq_cons digits
  have hdigits : AreDigits (d :: r) := hcons ▸ areDigits_digitsOf digits
  have hvalue : ofDigits (d :: r) = digits := by rw [← hcons, ofDigits_digitsOf]
  have hne : d ≠ 0 := by
    intro h
    rw [hzero h, h] at hvalue
    exact hd hvalue.symm
  rw [natText_toList, hcons, ← hvalue]
  have hlength : (((d :: r).length : Nat) : Int) = r.length + 1 := by simp
  unfold pointText
  rw [List.length_map]
  split_ifs with hexponent hone hsmall hlarge
  · have h := isDecimalOf_exponent hne hdigits ((d :: r).length + scale - 1)
    have hr : r = [] := by simpa using hone
    rw [if_pos hr] at h
    rw [show ((d :: r).length + scale - 1 - r.length : Int) = scale by omega] at h
    simpa using h
  · have h := isDecimalOf_exponent hne hdigits ((d :: r).length + scale - 1)
    have hr : r ≠ [] := by simpa using hone
    rw [if_neg hr] at h
    rw [show ((d :: r).length + scale - 1 - r.length : Int) = scale by omega] at h
    simpa using h
  · have h := isDecimalOf_small hne hdigits (-((d :: r).length + scale)).toNat
    rw [show (-(((-((d :: r).length + scale)).toNat + (d :: r).length : Nat) : Int)) = scale by
      omega] at h
    simpa [zeros_toList] using h
  · have h := isDecimalOf_large hne hdigits scale.toNat
    rw [show ((scale.toNat : Nat) : Int) = scale by omega] at h
    rw [show ((d :: r).length + scale).toNat - (d :: r).length = scale.toNat by omega]
    simpa [zeros_toList] using h
  · have h := isDecimalOf_middle (n := ((d :: r).length + scale).toNat) hne hdigits (by omega)
      (by omega)
    rw [show (-(((d :: r).length - ((d :: r).length + scale).toNat : Nat) : Int)) = scale by
      omega] at h
    simpa using h

theorem readScalar_zero (negative : Bool) (hr : Ends rest) :
    readScalar ((if negative then ['-'] else []) ++ (['0', '.', '0'] ++ rest)) =
      .ok (.float (.finite negative 0 minExponent), rest) :=
  readScalar_point negative isWholePart_zero (areDigits_zeros 1) (List.cons_ne_nil 0 []) hr

/-- A double is read back from its text. -/
theorem readScalar_float {x : Binary64} (hx : x.IsCanonical) (hr : Ends rest) :
    readScalar ((floatText x).toList ++ rest) = .ok (.float x, rest) := by
  cases x with
  | notANumber => rfl
  | infinite negative =>
    cases negative with
    | false => rfl
    | true => rfl
  | finite negative m e =>
    have hsign : (if negative then "-" else "").toList = if negative then ['-'] else [] := by
      cases negative with
      | false => rfl
      | true => rfl
    change readScalar ((Binary64.text _).toList ++ rest) = _
    by_cases hm : m = 0
    · have he : e = minExponent := hx.leading.resolve_left (by rw [hm]; norm_num)
      rw [Binary64.text, if_pos hm, String.toList_append, hsign, hm, he, List.append_assoc]
      exact readScalar_zero negative hr
    · obtain ⟨hne, hnearest⟩ := nearest_shortest negative hx hm
      have hread := isDecimalOf_pointText hne (shortest m e).2 negative rest hr
      rw [hnearest] at hread
      rw [Binary64.text, if_neg hm, String.toList_append, hsign, List.append_assoc]
      exact hread

end ChunkBuild.Json
