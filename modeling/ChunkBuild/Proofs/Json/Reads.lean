import ChunkBuild.Json.Reader
import ChunkBuild.Proofs.Results
import Mathlib.Data.List.TakeWhile
/-! # What is read

A value that is read has a derivation in which each step is a rule of the grammar, so that facts about
values go by induction on it, with no fuel in the way. -/
namespace ChunkBuild.Json

open ChunkBuild.Text ChunkBuild.Number

/-- What is being read: a value, or the rest of a list or an object of which something is done. -/
inductive Reading where
  | value
  | items (done : List Value)
  | members (done : Fields Value)

inductive Reads : Reading → (depth : Nat) → List Char → Value → List Char → Prop where
  | text {depth s t r} : readText s = .ok (t, r) → Reads .value depth ('"' :: s) (.str t) r
  | scalar {depth s v r} : readScalar s = .ok (v, r) → Reads .value depth s v r
  | emptyList {depth s r} : skipSpace s = ']' :: r → Reads .value (depth + 1) ('[' :: s) (.arr []) r
  | list {depth s v r} : Reads (.items []) depth (skipSpace s) v r →
    Reads .value (depth + 1) ('[' :: s) v r
  | emptyObject {depth s r} : skipSpace s = '\x7d' :: r →
    Reads .value (depth + 1) ('\x7b' :: s) (.obj []) r
  | object {depth s v r} : Reads (.members []) depth (skipSpace s) v r →
    Reads .value (depth + 1) ('\x7b' :: s) v r
  | lastItem {depth done s v q r} : Reads .value depth s v q → skipSpace q = ']' :: r →
    Reads (.items done) depth s (.arr (v :: done).reverse) r
  | item {depth done s v q t u r} : Reads .value depth s v q → skipSpace q = ',' :: t →
    Reads (.items (v :: done)) depth (skipSpace t) u r → Reads (.items done) depth s u r
  | lastMember {depth done s key p t v q r} : readText s = .ok (key, p) → skipSpace p = ':' :: t →
    Reads .value depth (skipSpace t) v q → skipSpace q = '\x7d' :: r →
    Reads (.members done) depth ('"' :: s) (.obj (done.put key v)) r
  | member {depth done s key p t v q w u r} : readText s = .ok (key, p) → skipSpace p = ':' :: t →
    Reads .value depth (skipSpace t) v q → skipSpace q = ',' :: w →
    Reads (.members (done.put key v)) depth (skipSpace w) u r →
    Reads (.members done) depth ('"' :: s) u r

variable {fuel depth start : Nat} {s r : List Char} {v : Value}

/-! ### One step of reading -/

section Step

variable
  (hvalue : ∀ {depth s v r}, readValue fuel depth s = .ok (v, r) → Reads .value depth s v r)
  (hitems : ∀ {depth done s v r}, readItems fuel depth done s = .ok (v, r) →
    Reads (.items done) depth s v r)
  (hmembers : ∀ {depth done s v r}, readMembers fuel depth done s = .ok (v, r) →
    Reads (.members done) depth s v r)

include hitems hmembers in
theorem reads_of_readValue (h : readValue (fuel + 1) depth s = .ok (v, r)) :
    Reads .value depth s v r := by
  rw [readValue.eq_def] at h
  dsimp only at h
  split at h
  · obtain ⟨⟨t, rest⟩, ht, he⟩ := except_map_eq_ok.mp h
    cases he
    exact .text ht
  · cases h
  · split at h
    · next hend =>
      cases h
      exact .emptyList hend
    · exact .list (hitems h)
  · cases h
  · split at h
    · next hend =>
      cases h
      exact .emptyObject hend
    · exact .object (hmembers h)
  · exact .scalar h

include hvalue hitems in
theorem reads_of_readItems {done : List Value}
    (h : readItems (fuel + 1) depth done s = .ok (v, r)) : Reads (.items done) depth s v r := by
  rw [readItems] at h
  split at h
  · cases h
  · next hv =>
    split at h
    · next hend =>
      cases h
      exact .lastItem (hvalue hv) hend
    · next hnext => exact .item (hvalue hv) hnext (hitems h)
    · cases h

include hvalue hmembers in
theorem reads_of_readMembers {done : Fields Value}
    (h : readMembers (fuel + 1) depth done s = .ok (v, r)) : Reads (.members done) depth s v r := by
  rw [readMembers.eq_def] at h
  dsimp only at h
  split at h
  · split at h
    · cases h
    · next hkey =>
      split at h
      · next hcolon =>
        split at h
        · cases h
        · next hv =>
          split at h
          · next hend =>
            cases h
            exact .lastMember hkey hcolon (hvalue hv) hend
          · next hnext => exact .member hkey hcolon (hvalue hv) hnext (hmembers h)
          · cases h
      · cases h
  · cases h

end Step

/-- Everything that is read is derived. -/
theorem reads_of_read : ∀ {fuel : Nat},
    (∀ {depth s v r}, readValue fuel depth s = .ok (v, r) → Reads .value depth s v r) ∧
    (∀ {depth done s v r}, readItems fuel depth done s = .ok (v, r) →
      Reads (.items done) depth s v r) ∧
    ∀ {depth done s v r}, readMembers fuel depth done s = .ok (v, r) →
      Reads (.members done) depth s v r := by
  intro fuel
  induction fuel with
  | zero => exact ⟨(fun h => nomatch h), (fun h => nomatch h), fun h => nomatch h⟩
  | succ fuel ih =>
    obtain ⟨hvalue, hitems, hmembers⟩ := ih
    exact ⟨reads_of_readValue hitems hmembers, reads_of_readItems hvalue hitems,
      reads_of_readMembers hvalue hmembers⟩

theorem reads_of_readAll (h : readAll s = .ok v) :
    ∃ r, Reads .value depthLimit (skipSpace s) v r ∧ skipSpace r = [] := by
  unfold readAll at h
  split at h
  · cases h
  · split at h
    · cases h
    · next hv =>
      split at h
      · next hend =>
        cases h
        exact ⟨_, reads_of_read.1 hv, hend⟩
      · cases h

theorem reads_of_parse {text : String} (h : parse text = .ok v) :
    ∃ s r, Reads .value depthLimit s v r :=
  let ⟨r, hr, _⟩ := reads_of_readAll (except_mapError_eq_ok.mp h)
  ⟨_, r, hr⟩

/-! ## Numerals -/

structure Numeral where
  negative : Bool
  whole : List Char
  fraction : List Char
  exponent : Option Int

/-- The number that is written: an integer when there is neither a fraction nor an exponent. -/
def Numeral.value (n : Numeral) : Except IntegerProblem Value :=
  if n.fraction.isEmpty && n.exponent.isNone then
    if n.whole.length > digitLimit then .error (.tooLong n.whole.length)
    else
      let digits := ofDigits (n.whole.map asciiValue)
      .ok (.int (if n.negative then -(digits : Int) else digits))
  else
    let digits := ofDigits ((n.whole ++ n.fraction).map asciiValue)
    .ok (.float (ofDecimal n.negative digits (n.exponent.getD 0 - n.fraction.length)))

def unsigned : List Char → Bool × List Char
  | '-' :: r => (true, r)
  | r => (false, r)

def readNumeral (s : List Char) : Option (Numeral × List Char) :=
  (readWhole (unsigned s).2).map fun (whole, r) =>
    let (fraction, r) := (readFraction r).getD ([], r)
    match readExponent r with
    | some (e, r) => (⟨(unsigned s).1, whole, fraction, some e⟩, r)
    | none => (⟨(unsigned s).1, whole, fraction, none⟩, r)

theorem readNumber_eq (s : List Char) :
    readNumber s = (readNumeral s).map fun (n, r) => (n.value, r) := by
  unfold readNumber
  split
  next negative body hbody =>
  have hsign : unsigned s = (negative, body) := by
    unfold unsigned
    split
    · exact hbody
    · next hplain =>
      split at hbody
      · exact absurd rfl (hplain _)
      · exact hbody
  rw [readNumeral, hsign]
  cases readWhole body with
  | none => rfl
  | some w =>
    obtain ⟨whole, r⟩ := w
    dsimp only [Option.map_some]
    cases readExponent ((readFraction r).getD ([], r)).2 with
    | none =>
      dsimp only [Numeral.value]
      split_ifs
      all_goals rfl
    | some e =>
      dsimp only [Numeral.value]
      split_ifs
      all_goals rfl

/-! ## What is left -/

def isToken (c : Char) : Bool :=
  c.toNat < 127 && !isSpace c && c ≠ '"' && c ≠ '[' && c ≠ ']' && c ≠ '\x7b' && c ≠ '\x7d'

theorem isToken_of_digit {c : Char} (h : isAsciiDigit c = true) : isToken c = true := by
  have hne (d : Char) (hd : isAsciiDigit d = false) : c ≠ d := by
    rintro rfl
    rw [h] at hd
    cases hd
  have hlt : c.toNat < 127 := by
    simp only [isAsciiDigit, Bool.and_eq_true, decide_eq_true_eq] at h
    omega
  simp [isToken, isSpace, hlt, hne ' ' rfl, hne '\t' rfl, hne '\n' rfl, hne '\r' rfl, hne '"' rfl,
    hne '[' rfl, hne ']' rfl, hne '\x7b' rfl, hne '\x7d' rfl]

def Passes (s r : List Char) : Prop := ∃ t, s = t ++ r ∧ ∀ c ∈ t, isToken c = true

theorem Passes.refl (s : List Char) : Passes s s := ⟨[], rfl, fun _ h => nomatch h⟩

theorem Passes.cons {c : Char} (hc : isToken c = true) (h : Passes s r) : Passes (c :: s) r := by
  obtain ⟨t, rfl, ht⟩ := h
  exact ⟨c :: t, rfl, List.forall_mem_cons.mpr ⟨hc, ht⟩⟩

theorem Passes.trans {q : List Char} (h : Passes s q) (hq : Passes q r) : Passes s r := by
  obtain ⟨t, rfl, ht⟩ := h
  obtain ⟨u, rfl, hu⟩ := hq
  exact ⟨t ++ u, (List.append_assoc t u r).symm, List.forall_mem_append.mpr ⟨ht, hu⟩⟩

theorem Passes.length_le (h : Passes s r) : r.length ≤ s.length := by
  obtain ⟨t, rfl, -⟩ := h
  exact (List.suffix_append t r).length_le

theorem passes_digits (s : List Char) : Passes s (s.dropWhile isAsciiDigit) := by
  refine ⟨s.takeWhile isAsciiDigit, (List.takeWhile_append_dropWhile).symm, fun c hc => ?_⟩
  exact isToken_of_digit (List.mem_takeWhile_imp hc)

theorem passes_of_readFraction {f : List Char} (h : readFraction s = some (f, r)) : Passes s r := by
  unfold readFraction at h
  split at h
  · split at h
    · cases h
    · cases h
      exact (passes_digits _).cons (by decide)
  · cases h

theorem passes_readSign (s : List Char) : Passes s (readSign s).2 := by
  unfold readSign
  split
  · exact (Passes.refl _).cons (by decide)
  · exact (Passes.refl _).cons (by decide)
  · exact .refl _

theorem passes_of_readExponent {e : Int} (h : readExponent s = some (e, r)) : Passes s r := by
  unfold readExponent at h
  split at h
  · next c q =>
    split at h
    · next hc =>
      dsimp only at h
      split at h
      · cases h
      · cases h
        have htoken : isToken c = true := by
          simp only [Bool.or_eq_true, decide_eq_true_eq] at hc
          rcases hc with rfl | rfl
          · rfl
          · rfl
        exact ((passes_readSign q).trans (passes_digits _)).cons htoken
    · cases h
  · cases h

theorem passes_of_readWhole {w : List Char} (h : readWhole s = some (w, r)) :
    ∃ c q, s = c :: q ∧ isToken c = true ∧ Passes q r := by
  unfold readWhole at h
  split at h
  · cases h
    exact ⟨_, _, rfl, by decide, .refl _⟩
  · next c q _ =>
    split at h
    · next hc =>
      cases h
      refine ⟨c, q, rfl, isToken_of_digit hc, ?_⟩
      rw [List.dropWhile_cons, if_pos hc]
      exact passes_digits q
    · cases h
  · cases h

theorem passes_of_readNumeral {n : Numeral} (h : readNumeral s = some (n, r)) :
    ∃ c q, s = c :: q ∧ isToken c = true ∧ Passes q r := by
  have hsign : s = (unsigned s).2 ∨ s = '-' :: (unsigned s).2 := by
    unfold unsigned
    split
    · exact .inr rfl
    · exact .inl rfl
  obtain ⟨⟨whole, r₀⟩, hwhole, h⟩ := Option.map_eq_some_iff.mp h
  obtain ⟨c, q, hc, htoken, hq⟩ := passes_of_readWhole hwhole
  have hfraction : Passes r₀ ((readFraction r₀).getD ([], r₀)).2 := by
    cases hf : readFraction r₀ with
    | none => exact .refl r₀
    | some f => exact passes_of_readFraction hf
  have hexponent : Passes ((readFraction r₀).getD ([], r₀)).2 r := by
    dsimp only at h
    split at h
    · next he =>
      cases h
      exact passes_of_readExponent he
    · cases h
      exact .refl _
  have hrest := hq.trans (hfraction.trans hexponent)
  rw [hc] at hsign
  rcases hsign with hs | hs
  · exact ⟨c, q, hs, htoken, hrest⟩
  · exact ⟨'-', c :: q, hs, rfl, hrest.cons htoken⟩

theorem passes_of_readNumber {n : Except IntegerProblem Value} (h : readNumber s = some (n, r)) :
    ∃ c q, s = c :: q ∧ isToken c = true ∧ Passes q r := by
  rw [readNumber_eq] at h
  obtain ⟨⟨n, r⟩, hn, he⟩ := Option.map_eq_some_iff.mp h
  cases he
  exact passes_of_readNumeral hn

theorem passes_of_readScalar (h : readScalar s = .ok (v, r)) :
    ∃ c q, s = c :: q ∧ isToken c = true ∧ Passes q r := by
  unfold readScalar at h
  split at h
  case h_7 =>
    split at h
    · next hn =>
      cases h
      exact passes_of_readNumber hn
    · cases h
    · cases h
  all_goals
    cases h
    refine ⟨_, _, rfl, by decide, ?_⟩
    repeat' apply Passes.cons (by decide)
    exact .refl r

inductive Closes : List Char → List Char → Prop where
  | quote {r : List Char} : Closes ('"' :: r) r
  | escape {c : Char} {s r : List Char} : Closes s r → Closes ('\\' :: c :: s) r
  | char {c : Char} {s r : List Char} : c ≠ '"' → c ≠ '\\' → Closes s r → Closes (c :: s) r

theorem Closes.length_lt (h : Closes s r) : r.length < s.length := by
  induction h with
  | quote => exact Nat.lt_succ_self _
  | escape _ ih => exact Nat.lt_succ_of_lt (Nat.lt_succ_of_lt ih)
  | char _ _ _ ih => exact Nat.lt_succ_of_lt ih

theorem Closes.hex {c : Char} {n : Nat} (hc : hexValue? c = some n) (h : Closes s r) :
    Closes (c :: s) r := by
  refine .char ?_ ?_ h
  · rintro rfl
    cases hc
  · rintro rfl
    cases hc

theorem closes_of_hexUnit {a b c d : Char} {n : Nat} (hn : hexUnit? a b c d = some n)
    (h : Closes s r) : Closes (a :: b :: c :: d :: s) r := by
  obtain ⟨_, ha, hn⟩ := Option.bind_eq_some_iff.mp hn
  obtain ⟨_, hb, hn⟩ := Option.bind_eq_some_iff.mp hn
  obtain ⟨_, hc, hn⟩ := Option.bind_eq_some_iff.mp hn
  obtain ⟨_, hd, -⟩ := Option.bind_eq_some_iff.mp hn
  exact .hex ha (.hex hb (.hex hc (.hex hd h)))

theorem closes_of_readUnits {us : List QuotedUnit} (h : readUnits start s = .ok (us, r)) :
    Closes s r := by
  fun_induction readUnits start s generalizing us with
  | case1 => cases h
  | case2 =>
    cases h
    exact .quote
  | case3 => cases h
  | case4 a b c d q n _ hn ih =>
    obtain ⟨⟨vs, rest⟩, hq, he⟩ := except_map_eq_ok.mp h
    cases he
    exact .escape (closes_of_hexUnit hn (ih hq))
  | case5 => cases h
  | case6 => cases h
  | case7 _ _ _ _ _ _ ih =>
    obtain ⟨⟨vs, rest⟩, hq, he⟩ := except_map_eq_ok.mp h
    cases he
    exact .escape (ih hq)
  | case8 => cases h
  | case9 => cases h
  | case10 c q hquote hend _ _ hescape _ ih =>
    obtain ⟨⟨vs, rest⟩, hq, he⟩ := except_map_eq_ok.mp h
    cases he
    refine .char hquote ?_ (ih hq)
    rintro rfl
    cases q with
    | nil => exact hend rfl rfl
    | cons d q => exact hescape d q rfl rfl

theorem closes_of_readText {t : String} (h : readText s = .ok (t, r)) : Closes s r := by
  obtain ⟨⟨us, rest⟩, hunits, he⟩ := except_map_eq_ok.mp h
  cases he
  exact closes_of_readUnits hunits

theorem length_skipSpace (s : List Char) : (skipSpace s).length ≤ s.length :=
  (List.dropWhile_suffix _).length_le

theorem length_of_skipSpace {c : Char} (h : skipSpace s = c :: r) : r.length < s.length := by
  have hle := length_skipSpace s
  rw [h] at hle
  exact hle

/-- Reading takes a character at least. -/
theorem Reads.length_lt {g : Reading} (h : Reads g depth s v r) : r.length < s.length := by
  induction h with
  | text ht => exact Nat.lt_succ_of_lt (closes_of_readText ht).length_lt
  | scalar hs =>
    obtain ⟨c, q, rfl, -, hq⟩ := passes_of_readScalar hs
    exact Nat.lt_succ_of_le hq.length_le
  | emptyList hs | emptyObject hs => exact Nat.lt_succ_of_lt (length_of_skipSpace hs)
  | list _ ih | object _ ih =>
    exact Nat.lt_succ_of_lt (Nat.lt_of_lt_of_le ih (length_skipSpace _))
  | lastItem _ hq ih => exact Nat.lt_trans (length_of_skipSpace hq) ih
  | item _ hq _ ih ihr =>
    exact Nat.lt_trans (Nat.lt_of_lt_of_le ihr (length_skipSpace _))
      (Nat.lt_trans (length_of_skipSpace hq) ih)
  | lastMember hk hp _ hq ih =>
    have hkey := (closes_of_readText hk).length_lt
    have hcolon := length_of_skipSpace hp
    have hvalue := Nat.lt_of_lt_of_le ih (length_skipSpace _)
    have hend := length_of_skipSpace hq
    rw [List.length_cons]
    omega
  | member hk hp _ hq _ ih ihr =>
    have hkey := (closes_of_readText hk).length_lt
    have hcolon := length_of_skipSpace hp
    have hvalue := Nat.lt_of_lt_of_le ih (length_skipSpace _)
    have hcomma := length_of_skipSpace hq
    have hrest := Nat.lt_of_lt_of_le ihr (length_skipSpace _)
    rw [List.length_cons]
    omega

/-! ## Fuel -/

section Step

variable
  (hvalue : ∀ {depth s}, 2 * s.length + 1 ≤ fuel →
    readValue (fuel + 1) depth s = readValue fuel depth s)
  (hitems : ∀ {depth done s}, 2 * s.length + 2 ≤ fuel →
    readItems (fuel + 1) depth done s = readItems fuel depth done s)
  (hmembers : ∀ {depth done s}, 2 * s.length + 2 ≤ fuel →
    readMembers (fuel + 1) depth done s = readMembers fuel depth done s)

include hitems hmembers in
theorem readValue_fuel_succ (hs : 2 * s.length + 1 ≤ fuel + 1) :
    readValue (fuel + 2) depth s = readValue (fuel + 1) depth s := by
  rw [readValue.eq_def, readValue.eq_def (fuel + 1)]
  dsimp only
  split
  · rfl
  · rfl
  · next r n =>
    have hr := length_skipSpace r
    rw [List.length_cons] at hs
    split
    · rfl
    · exact hitems (by omega)
  · rfl
  · next r n =>
    have hr := length_skipSpace r
    rw [List.length_cons] at hs
    split
    · rfl
    · exact hmembers (by omega)
  · rfl

include hvalue hitems in
theorem readItems_fuel_succ {done : List Value} (hs : 2 * s.length + 2 ≤ fuel + 1) :
    readItems (fuel + 2) depth done s = readItems (fuel + 1) depth done s := by
  rw [readItems, readItems, hvalue (by omega)]
  split
  · rfl
  · next v r hv =>
    have hr := (reads_of_read.1 hv).length_lt
    split
    · rfl
    · next rest hnext =>
      have hrest := length_of_skipSpace hnext
      have hskip := length_skipSpace rest
      exact hitems (by omega)
    · rfl

include hvalue hmembers in
theorem readMembers_fuel_succ {done : Fields Value} (hs : 2 * s.length + 2 ≤ fuel + 1) :
    readMembers (fuel + 2) depth done s = readMembers (fuel + 1) depth done s := by
  rw [readMembers.eq_def, readMembers.eq_def (fuel + 1)]
  dsimp only
  split
  · next r =>
    rw [List.length_cons] at hs
    split
    · rfl
    · next key p hkey =>
      have hp := (closes_of_readText hkey).length_lt
      split
      · next q hcolon =>
        have hq := length_of_skipSpace hcolon
        have hqskip := length_skipSpace q
        rw [hvalue (by omega)]
        split
        · rfl
        · next v u hv =>
          have hu := (reads_of_read.1 hv).length_lt
          split
          · rfl
          · next rest hnext =>
            have hrest := length_of_skipSpace hnext
            have hskip := length_skipSpace rest
            exact hmembers (by omega)
          · rfl
      · rfl
  · rfl

end Step

/-- A text's own length is fuel enough: one unit for each value and one for each item. -/
theorem fuel_enough : ∀ {fuel : Nat},
    (∀ {depth s}, 2 * s.length + 1 ≤ fuel →
      readValue (fuel + 1) depth s = readValue fuel depth s) ∧
    (∀ {depth done s}, 2 * s.length + 2 ≤ fuel →
      readItems (fuel + 1) depth done s = readItems fuel depth done s) ∧
    ∀ {depth done s}, 2 * s.length + 2 ≤ fuel →
      readMembers (fuel + 1) depth done s = readMembers fuel depth done s := by
  intro fuel
  induction fuel with
  | zero => exact ⟨(fun h => absurd h (by omega)), (fun h => absurd h (by omega)),
      fun h => absurd h (by omega)⟩
  | succ fuel ih =>
    obtain ⟨hvalue, hitems, hmembers⟩ := ih
    exact ⟨readValue_fuel_succ hitems hmembers, readItems_fuel_succ hvalue hitems,
      readMembers_fuel_succ hvalue hmembers⟩

theorem readValue_of_fuel {n m : Nat} (hn : 2 * s.length + 1 ≤ n) (hm : 2 * s.length + 1 ≤ m) :
    readValue n depth s = readValue m depth s := by
  have hleast {n : Nat} (hn : 2 * s.length + 1 ≤ n) :
      readValue n depth s = readValue (2 * s.length + 1) depth s := by
    induction n, hn using Nat.le_induction with
    | base => rfl
    | succ n hn ih => rw [fuel_enough.1 hn, ih]
  rw [hleast hn, hleast hm]

end ChunkBuild.Json
