import ChunkBuild.Proofs.Json.ReadBack
import ChunkBuild.Proofs.Text.Lettered
/-! # What is read can be written

Every value that is read from decoded bytes is readable: its texts are whole, its integers within bounds,
its doubles canonical, its keys distinct, and it lies within the depth that the reader allows. So it is
read back when it is printed. -/
namespace ChunkBuild.Json

open ChunkBuild.Text ChunkBuild.Number

/-! ## Texts -/

/-- What the reader sees of code points between quotes: characters as they are and escaped units. -/
inductive Units : List QuotedUnit → List Nat → Prop where
  | nil : Units [] []
  | unit {n us ns} : n < 0x10000 → Units us ns → Units (.unit n :: us) (n :: ns)
  | char {c us ns} : c.toNat < firstMark → Units us ns → Units (.char c :: us) (c.toNat :: ns)
  | pair {n m i us ns} : charsOf n = [m, i] → n < 0x110000 → isHalf n = false → Units us ns →
    Units (.char m :: .char i :: us) (n :: ns)

variable {us : List QuotedUnit} {ns : List Nat} {s r : List Char} {v : Value} {start room : Nat}

theorem Units.bounded (h : Units us ns) : ∀ n ∈ ns, n < 0x110000 := by
  induction h with
  | nil => exact fun _ hn => nomatch hn
  | unit hn _ ih => exact List.forall_mem_cons.mpr ⟨by omega, ih⟩
  | @char c _ _ _ _ ih => exact List.forall_mem_cons.mpr ⟨(toNat_bounds c).1, ih⟩
  | pair _ hn _ _ ih => exact List.forall_mem_cons.mpr ⟨hn, ih⟩

/-- What stands first is the unit of the first code point, or that code point is written by its own
characters and is no half. -/
theorem Units.of_cons {n : Nat} (h : Units us (n :: ns)) : ∃ vs, Units vs ns ∧
    (us = .unit n :: vs ∨ isHalf n = false ∧ (∀ m ws, us ≠ .unit m :: ws) ∧
      joinUnits us = charsOf n ++ joinUnits vs) := by
  cases h with
  | unit _ h => exact ⟨_, h, .inl rfl⟩
  | @char c us _ hc h =>
    refine ⟨us, h, .inr ⟨(toNat_bounds c).2, (fun _ _ he => nomatch he), ?_⟩⟩
    rw [charsOf_toNat hc]
    rfl
  | @pair _ m i us _ he _ hh h =>
    refine ⟨us, h, .inr ⟨hh, (fun _ _ he => nomatch he), ?_⟩⟩
    rw [he]
    rfl

/-- Two units side by side are joined exactly when they stand for the halves of one character. -/
theorem joinUnits_of_units (h : Units us ns) : joinUnits us = ofPoints (joinHalves ns) := by
  fun_induction joinHalves ns generalizing us with
  | case1 =>
    cases h
    rfl
  | case2 n =>
    obtain ⟨vs, hvs, rfl | ⟨-, -, hjoin⟩⟩ := h.of_cons
    · cases hvs
      rfl
    · cases hvs
      exact hjoin
  | case3 a b q n hj ih =>
    -- only units are halves, so both code points are units
    obtain ⟨vs, hvs, rfl | ⟨ha, -⟩⟩ := h.of_cons
    · obtain ⟨ws, hws, rfl | ⟨hb, -⟩⟩ := hvs.of_cons
      · rw [joinUnits, hj]
        dsimp only
        rw [ih hws]
        rfl
      · obtain ⟨-, hsecond, -⟩ := joined?_eq_some_iff.mp hj
        simp only [isHalf, Bool.and_eq_false_iff, decide_eq_false_iff_not] at hb
        omega
    · rw [joined?_eq_none_of_not_half ha b] at hj
      cases hj
  | case4 a b q hj ih =>
    obtain ⟨vs, hvs, rfl | ⟨-, -, hjoin⟩⟩ := h.of_cons
    · rw [joinUnits_unit, ih hvs]
      · rfl
      · rintro m ws rfl
        obtain ⟨_, -, he | ⟨-, hno, -⟩⟩ := hvs.of_cons
        · cases he
          exact hj
        · exact absurd rfl (hno m ws)
    · rw [hjoin, ih hvs]
      rfl

theorem hexValue_spec {c : Char} {n : Nat} (h : hexValue? c = some n) :
    n < 16 ∧ c.toNat < firstMark := by
  unfold hexValue? at h
  unfold firstMark
  simp only [Bool.and_eq_true, decide_eq_true_eq] at h
  split_ifs at h
  all_goals
    cases h
    omega

theorem hexUnit_spec {a b c d : Char} {n : Nat} (h : hexUnit? a b c d = some n) :
    n < 0x10000 ∧ ∀ x ∈ [a, b, c, d], x.toNat < firstMark := by
  obtain ⟨i, ha, h⟩ := Option.bind_eq_some_iff.mp h
  obtain ⟨j, hb, h⟩ := Option.bind_eq_some_iff.mp h
  obtain ⟨k, hc, h⟩ := Option.bind_eq_some_iff.mp h
  obtain ⟨l, hd, h⟩ := Option.bind_eq_some_iff.mp h
  cases h
  have ha := hexValue_spec ha
  have hb := hexValue_spec hb
  have hc := hexValue_spec hc
  have hd := hexValue_spec hd
  refine ⟨by omega, ?_⟩
  simp only [List.forall_mem_cons]
  exact ⟨ha.2, hb.2, hc.2, hd.2, fun _ h => nomatch h⟩

theorem escapeValue_spec {c x : Char} (h : escapeValue? c = some x) :
    c.toNat < firstMark ∧ x.toNat < firstMark := by
  unfold escapeValue? at h
  split at h
  case h_9 => cases h
  all_goals
    cases h
    decide

/-- The reader sees whole characters. In the middle of a pair it stands before its second character. -/
theorem units_of_readUnits (h : readUnits start s = .ok (us, r)) :
    (IsLettered s → IsLettered r ∧ ∃ ns, Units us ns) ∧
    ∀ i t, s = i :: t → firstMark ≤ i.toNat → IsLettered t →
      IsLettered r ∧ ∃ vs ns, us = .char i :: vs ∧ Units vs ns := by
  have hlow {c : Char} (hc : c.toNat < firstMark) (s : List Char) {P : Char → List Char → Prop} :
      ∀ i t, c :: s = i :: t → firstMark ≤ i.toNat → P i t := by
    rintro i t ⟨⟩ hi
    exact absurd hc (Nat.not_lt.mpr hi)
  fun_induction readUnits start s generalizing us with
  | case1 => cases h
  | case2 =>
    cases h
    exact ⟨fun hs => ⟨hs.tail (by decide), [], .nil⟩, hlow (by decide) _⟩
  | case3 => cases h
  | case4 a b c d q n _ hn ih =>
    obtain ⟨⟨vs, rest⟩, hq, he⟩ := except_map_eq_ok.mp h
    cases he
    obtain ⟨hlt, hhex⟩ := hexUnit_spec hn
    refine ⟨fun hs => ?_, hlow (by decide) _⟩
    obtain ⟨hr, ns, hns⟩ :=
      (ih hq).1 (IsLettered.drop (s := [a, b, c, d]) ((hs.tail (by decide)).tail (by decide)) hhex)
    exact ⟨hr, _, .unit hlt hns⟩
  | case5 => cases h
  | case6 => cases h
  | case7 c q _ _ x hx ih =>
    obtain ⟨⟨vs, rest⟩, hq, he⟩ := except_map_eq_ok.mp h
    cases he
    obtain ⟨hc, hlt⟩ := escapeValue_spec hx
    refine ⟨fun hs => ?_, hlow (by decide) _⟩
    obtain ⟨hr, ns, hns⟩ := (ih hq).1 ((hs.tail (by decide)).tail hc)
    exact ⟨hr, _, .char hlt hns⟩
  | case8 => cases h
  | case9 => cases h
  | case10 c q _ _ _ _ _ _ ih =>
    obtain ⟨⟨vs, rest⟩, hq, he⟩ := except_map_eq_ok.mp h
    cases he
    refine ⟨fun hs => ?_, ?_⟩
    · cases hs with
      | char hc hq' =>
        obtain ⟨hr, ns, hns⟩ := (ih hq).1 hq'
        exact ⟨hr, _, .char hc hns⟩
      | pair he hn hh _ hi ht =>
        obtain ⟨hr, ws, ns, rfl, hns⟩ := (ih hq).2 _ _ rfl hi ht
        exact ⟨hr, _, .pair he hn hh hns⟩
    · rintro i t ⟨⟩ _ ht
      obtain ⟨hr, ns, hns⟩ := (ih hq).1 ht
      exact ⟨hr, vs, ns, rfl, hns⟩

theorem isWhole_of_readText {t : String} (h : readText s = .ok (t, r)) (hs : IsLettered s) :
    IsWhole t ∧ IsLettered r := by
  obtain ⟨⟨us, rest⟩, hunits, he⟩ := except_map_eq_ok.mp h
  cases he
  obtain ⟨hr, ns, hns⟩ := (units_of_readUnits hunits).1 hs
  refine ⟨⟨_, joinHalves_areApart hns.bounded, ?_⟩, hr⟩
  rw [String.toList_ofList, joinUnits_of_units hns]

/-! ## Words and numbers -/

theorem Passes.isLettered (h : Passes s r) (hs : IsLettered s) : IsLettered r := by
  obtain ⟨t, rfl, ht⟩ := h
  refine hs.drop fun c hc => ?_
  have htoken := ht c hc
  simp only [isToken, Bool.and_eq_true, decide_eq_true_eq] at htoken
  exact Nat.lt_trans htoken.1.1.1.1.1.1 (by decide)

theorem isLettered_skipSpace (hs : IsLettered s) : IsLettered (skipSpace s) := by
  have hsplit := List.takeWhile_append_dropWhile (p := isSpace) (l := s)
  rw [← hsplit] at hs
  refine hs.drop fun c hc => ?_
  have hspace := List.mem_takeWhile_imp hc
  simp only [isSpace, Bool.or_eq_true, beq_iff_eq] at hspace
  rcases hspace with ((rfl | rfl) | rfl) | rfl
  all_goals decide

theorem digits_of_readWhole {w : List Char} (h : readWhole s = some (w, r)) :
    ∀ c ∈ w, isAsciiDigit c = true := by
  unfold readWhole at h
  split at h
  · cases h
    exact List.forall_mem_singleton.mpr (by decide)
  · split at h
    · cases h
      exact fun c hc => List.mem_takeWhile_imp hc
    · cases h
  · cases h

theorem ofDigits_asciiValue_lt {w : List Char} (h : ∀ c ∈ w, isAsciiDigit c = true) :
    ofDigits (w.map asciiValue) < 10 ^ w.length := by
  rw [← List.length_map asciiValue]
  refine ofDigits_lt fun d hd => ?_
  obtain ⟨c, hc, rfl⟩ := List.mem_map.mp hd
  have hdigit := h c hc
  simp only [isAsciiDigit, Bool.and_eq_true, decide_eq_true_eq] at hdigit
  unfold asciiValue
  omega

theorem isReadable_of_readNumeral {n : Numeral} (h : readNumeral s = some (n, r))
    (hv : n.value = .ok v) : v.IsReadable room := by
  have hdigits : ∀ c ∈ n.whole, isAsciiDigit c = true := by
    obtain ⟨⟨whole, q⟩, hwhole, h⟩ := Option.map_eq_some_iff.mp h
    have hw := digits_of_readWhole hwhole
    dsimp only at h
    split at h
    all_goals
      cases h
      exact hw
  unfold Numeral.value at hv
  split at hv
  · split at hv
    · cases hv
    · next hlength =>
      cases hv
      have hlt := Nat.lt_of_lt_of_le (ofDigits_asciiValue_lt hdigits)
        (Nat.pow_le_pow_right (by decide) (Nat.not_lt.mp hlength))
      refine .int ?_
      split
      · rwa [Int.natAbs_neg, Int.natAbs_natCast]
      · rwa [Int.natAbs_natCast]
  · cases hv
    exact .float (ofDecimal_isCanonical _ _ _)

theorem isReadable_of_readScalar (h : readScalar s = .ok (v, r)) : v.IsReadable room := by
  unfold readScalar at h
  split at h
  case h_1 =>
    cases h
    exact .null
  case h_2 | h_3 =>
    cases h
    exact .bool _
  case h_4 | h_5 | h_6 =>
    cases h
    exact .float trivial
  case h_7 =>
    split at h
    · next hn =>
      cases h
      rw [readNumber_eq] at hn
      obtain ⟨⟨n, q⟩, hnumeral, he⟩ := Option.map_eq_some_iff.mp hn
      exact isReadable_of_readNumeral hnumeral (Prod.mk.inj he).1
    · cases h
    · cases h

/-! ## Values -/

theorem isReadable_put {fields : Fields Value} {key : String}
    (h : (Value.obj fields).IsReadable (room + 1)) (hk : IsWhole key) (hv : v.IsReadable room) :
    (Value.obj (fields.put key v)).IsReadable (room + 1) := by
  cases h with
  | obj hd hkeys hvalues =>
    refine .obj (Fields.nodup_put hd) (fun f hf => ?_) fun f hf => ?_
    · rcases Fields.mem_keys_put (List.mem_map_of_mem hf) with hmem | heq
      · obtain ⟨g, hg, he⟩ := List.mem_map.mp hmem
        rw [← he]
        exact hkeys g hg
      · rw [heq]
        exact hk
    · rcases Fields.mem_put hf with hmem | heq
      · exact hvalues f hmem
      · rw [heq]
        exact hv

theorem isReadable_cons {items : List Value} (h : (Value.arr items).IsReadable (room + 1))
    (hv : v.IsReadable room) : (Value.arr (v :: items)).IsReadable (room + 1) := by
  cases h with
  | arr hitems => exact .arr (List.forall_mem_cons.mpr ⟨hv, hitems⟩)

theorem isReadable_reverse {items : List Value} (h : (Value.arr items).IsReadable (room + 1)) :
    (Value.arr items.reverse).IsReadable (room + 1) := by
  cases h with
  | arr hitems => exact .arr fun u hu => hitems u (List.mem_reverse.mp hu)

def Reading.IsReadable (depth : Nat) : Reading → Prop
  | .value => True
  | .items done => (Value.arr done).IsReadable (depth + 1)
  | .members done => (Value.obj done).IsReadable (depth + 1)

def Reading.depthOf (depth : Nat) : Reading → Nat
  | .value => depth
  | _ => depth + 1

theorem isReadable_of_reads {g : Reading} {depth : Nat} (h : Reads g depth s v r)
    (hs : IsLettered s) (hg : g.IsReadable depth) :
    v.IsReadable (g.depthOf depth) ∧ IsLettered r := by
  have hafter {c : Char} {q t : List Char} (hq : IsLettered q) (he : skipSpace q = c :: t)
      (hc : c.toNat < firstMark) : IsLettered t := by
    have h := isLettered_skipSpace hq
    rw [he] at h
    exact h.tail hc
  have hlist {depth : Nat} : (Value.arr []).IsReadable (depth + 1) := .arr fun _ h => nomatch h
  have hobject {depth : Nat} : (Value.obj []).IsReadable (depth + 1) :=
    .obj List.nodup_nil (fun _ h => nomatch h) fun _ h => nomatch h
  induction h with
  | text ht =>
    obtain ⟨htext, hr⟩ := isWhole_of_readText ht (hs.tail (by decide))
    exact ⟨.str htext, hr⟩
  | scalar ht =>
    obtain ⟨c, q, rfl, htoken, hq⟩ := passes_of_readScalar ht
    exact ⟨isReadable_of_readScalar ht, (hq.cons htoken).isLettered hs⟩
  | emptyList he => exact ⟨hlist, hafter (hs.tail (by decide)) he (by decide)⟩
  | list _ ih => exact ih (isLettered_skipSpace (hs.tail (by decide))) hlist
  | emptyObject he => exact ⟨hobject, hafter (hs.tail (by decide)) he (by decide)⟩
  | object _ ih => exact ih (isLettered_skipSpace (hs.tail (by decide))) hobject
  | lastItem _ he ih =>
    obtain ⟨hv, hq⟩ := ih hs trivial
    exact ⟨isReadable_reverse (isReadable_cons hg hv), hafter hq he (by decide)⟩
  | item _ he _ ih ihr =>
    obtain ⟨hv, hq⟩ := ih hs trivial
    exact ihr (isLettered_skipSpace (hafter hq he (by decide))) (isReadable_cons hg hv)
  | lastMember hk hp _ he ih =>
    obtain ⟨hkey, hrest⟩ := isWhole_of_readText hk (hs.tail (by decide))
    obtain ⟨hv, hq⟩ := ih (isLettered_skipSpace (hafter hrest hp (by decide))) trivial
    exact ⟨isReadable_put hg hkey hv, hafter hq he (by decide)⟩
  | member hk hp _ he _ ih ihr =>
    obtain ⟨hkey, hrest⟩ := isWhole_of_readText hk (hs.tail (by decide))
    obtain ⟨hv, hq⟩ := ih (isLettered_skipSpace (hafter hrest hp (by decide))) trivial
    exact ihr (isLettered_skipSpace (hafter hq he (by decide))) (isReadable_put hg hkey hv)

/-- Every value that is read from a decoded text is readable. -/
theorem isReadable_of_parse {text : String} (h : parse text = .ok v)
    (ht : IsLettered text.toList) : v.IsReadable depthLimit := by
  obtain ⟨_, hreads, -⟩ := reads_of_readAll (except_mapError_eq_ok.mp h)
  exact (isReadable_of_reads hreads (isLettered_skipSpace ht) trivial).1

end ChunkBuild.Json
